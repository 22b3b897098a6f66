import Slash.Rp1.Effects

/-!
# What a step does, whatever the packet

The firmware accepts any packet: kernels that may fail or never end, COND packets with a body,
RERUN packets that clear a counter, DMA packets that write anywhere. Here is one relation over
all of them: `Write` for `write_cq_entry` and `Turn` for one activation. A `Turn` splits the
work of a packet into what it does before it completes (`Prepared`) and how it completes.
-/

namespace Slash.Rp1

open Lib List

/-- The scan has left its passes for good: rejected, quiescing after a fatal packet, stopped. -/
def Phase.Fatal : Phase → Prop
  | .reject _ _ | .quiesce _ _ | .stopped _ | .hung => True
  | _ => False

/-! ## Publishing -/

/-- How one call of `write_cq_entry` ends. -/
inductive Write (s : St) (inp : Input) (flags : U16) (node : U32) (st : CqStatus)
    (detail : U32) : St → Room → Prop where
  | silent (h : hasFlag flags flagSilent = true) :
      Write s inp flags node st detail (s.release inp.release) .ready
  | append (h : hasFlag flags flagSilent = false)
      (hroom : cqRoom flags (s.release inp.release).ctrl = .ready) :
      Write s inp flags node st detail ((s.release inp.release).appendCq
        ⟨node, st, detail, inp.now - s.graphStartCycles⟩) .ready
  | full (hroom : cqRoom flags (s.release inp.release).ctrl = .full) :
      Write s inp flags node st detail { s.release inp.release with overrun := true } .full
  | corrupt (hroom : cqRoom flags (s.release inp.release).ctrl = .corrupt) :
      Write s inp flags node st detail (s.release inp.release).latchCorrupt .corrupt

/-- What a caller of `write_cq_entry` that only tests for a negative result answers. -/
def Room.verdict : Room → Verdict
  | .corrupt => .stop .error
  | _ => .next true

namespace St

variable {s : St} {inp : Input} {flags : U16} {i : Nat} {st : CqStatus} {detail : U32}

theorem writeCqEntry_write (s : St) (inp : Input) (flags : U16) (node : U32) (st : CqStatus)
    (detail : U32) :
    Write s inp flags node st detail (s.writeCqEntry inp flags node st detail).1
      (s.writeCqEntry inp flags node st detail).2 := by
  simp only [writeCqEntry]
  cases hroom : cqRoom flags (s.release inp.release).ctrl with
  | corrupt => exact .corrupt hroom
  | full => exact .full hroom
  | ready =>
    cases hs : hasFlag flags flagSilent with
    | true => exact .silent hs
    | false => exact .append hs hroom

theorem publish_write (s : St) (inp : Input) (flags : U16) (i : Nat) (st : CqStatus)
    (detail : U32) : ∃ room, Write s inp flags (BitVec.ofNat 32 i) st detail
      (s.publish inp flags i st detail).1 room ∧
      (s.publish inp flags i st detail).2 = room.verdict := by
  have h := writeCqEntry_write s inp flags (BitVec.ofNat 32 i) st detail
  simp only [publish]
  cases hw : s.writeCqEntry inp flags (BitVec.ofNat 32 i) st detail with
  | mk t room =>
    rw [hw] at h
    refine ⟨room, ?_⟩
    cases room with
    | corrupt => exact ⟨h, rfl⟩
    | full => exact ⟨h, rfl⟩
    | ready => exact ⟨h, rfl⟩

end St

/-! ## What a packet does before it completes -/

/-- Activating node `i` now would set node `j` back to PENDING: `i` is a LOOP that goes on or
a COND that is not met with `j` in its body, or a RERUN of `j`. -/
def Core.Resets (c : Core) (i j : Nat) : Prop :=
  match (c.nodes i).payload with
  | .loop p => c.loopExits p = false ∧ p.bodyStart.toNat ≤ j ∧ j ≤ p.bodyEnd.toNat
  | .cond p => c.condMet p = false ∧ p.bodyStart.toNat ≤ j ∧ j ≤ p.bodyEnd.toNat
  | .rerun p => j = p.targetNode.toNat
  | _ => False

/-- The words a DMA packet stores, with their addresses. -/
def Payload.stores (inp : Input) : Payload → List (U32 × U32)
  | .dmaCopy p => (List.range (p.length.toNat / 4)).map fun w =>
      (p.dstAddrLo + BitVec.ofNat 32 (4 * w), inp.ddr (p.srcAddrLo + BitVec.ofNat 32 (4 * w)))
  | .dmaFill p => (List.range (p.length.toNat / 4)).map fun w =>
      (p.dstAddrLo + BitVec.ofNat 32 (4 * w), p.pattern)
  | _ => []

/-- The address lies in the node array. -/
def Core.InNodes (c : Core) (addr : U32) : Prop := (addr - c.nodeBase).toNat < 64 * c.nodeCount

/-- What the two sides of the completion queue share, and where it lies. -/
def St.ring (s : St) : U32 × U32 × U32 × U32 × (Nat → CqEntry) :=
  (s.ctrl.cqSize, s.ctrl.cqWriteIdx, s.ctrl.cqReadIdx, s.cqBase, s.cq)

/-- The address is that of a completion entry, of a cursor or of the size. -/
def St.RingWord (s : St) (addr : U32) : Prop :=
  (addr - s.cqBase).toNat < 16 * s.ctrl.cqSize.toNat ∨ addr - ctrlPhysAddr = 0x0C ∨
    addr - ctrlPhysAddr = 0x28 ∨ addr - ctrlPhysAddr = 0x2C

instance (s : St) (addr : U32) : Decidable (s.RingWord addr) :=
  inferInstanceAs (Decidable (_ ∨ _))

/-- The active image once the packet has done its work, `img` before. -/
def Payload.installs (img : U32) : Payload → U32
  | .pdiLoad p => p.imageId
  | _ => img

/-- The image installed last, starting from `img`. -/
def imageAfter (img : U32) : List Event → U32
  | [] => img
  | .loaded _ x :: _ => x
  | _ :: log => imageAfter img log

/-- The events of node `i` up to its completion. -/
def Event.Prepares (c : Core) (i : Nat) : Event → Prop
  | .activate j | .raise j _ _ | .capture j _ _ | .loaded j _ | .test j _ _ => j = i
  | .status j st => st = .pending ∧ c.Resets i j
  | .launch _ _ | .apDone _ _ => False

/-- The control block after the stores `ws`. -/
def Ctrl.pokes (c : Ctrl) (ws : List (U32 × U32)) : Ctrl :=
  ws.foldl (fun c w => c.poke (w.1 - ctrlPhysAddr) w.2) c

/-- `u` is `s` after the part of packet `i` that comes before its status changes. -/
structure Prepared (s : St) (inp : Input) (i : Nat) (u : St) : Prop where
  status : ∀ j, u.status j = s.status j ∨ u.status j = .pending ∧ s.toCore.Resets i j
  inflight : u.inflight = s.inflight
  count : u.nodeCount = s.nodeCount
  log : ∃ evs, u.log = evs ++ s.log ∧ (∀ e ∈ evs, e.Prepares s.toCore i) ∧
    u.activeImageId = imageAfter s.activeImageId evs
  appended : u.appended = s.appended
  errors : u.errors = s.errors
  overrun : u.overrun = s.overrun
  scan : u.scan = s.scan
  ctrl : ∃ ws, u.ctrl = s.ctrl.pokes ws ∧ ∀ w ∈ ws, w ∈ (s.nodes i).payload.stores inp
  nodes : (∀ w ∈ (s.nodes i).payload.stores inp, ¬ s.toCore.InNodes w.1) → u.nodes = s.nodes
  ring : (∀ w ∈ (s.nodes i).payload.stores inp, ¬ s.RingWord w.1) → u.ring = s.ring
  installs : u.activeImageId = (s.nodes i).payload.installs s.activeImageId

/-- `u` is `s` after the stores `ws`. -/
structure Stored (s : St) (ws : List (U32 × U32)) (u : St) : Prop where
  status : u.status = s.status
  inflight : u.inflight = s.inflight
  count : u.nodeCount = s.nodeCount
  base : u.nodeBase = s.nodeBase
  image : u.activeImageId = s.activeImageId
  log : u.log = s.log
  appended : u.appended = s.appended
  errors : u.errors = s.errors
  overrun : u.overrun = s.overrun
  scan : u.scan = s.scan
  ctrl : ∃ vs, u.ctrl = s.ctrl.pokes vs ∧ ∀ w ∈ vs, w ∈ ws
  nodes : (∀ w ∈ ws, ¬ s.toCore.InNodes w.1) → u.nodes = s.nodes
  ring : (∀ w ∈ ws, ¬ s.RingWord w.1) → u.ring = s.ring

theorem proj_ite {α β : Type} (f : α → β) {p : Prop} [Decidable p] {a b : α} {x : β}
    (ha : p → f a = x) (hb : ¬ p → f b = x) : f (if p then a else b) = x := by
  split
  · exact ha ‹_›
  · exact hb ‹_›

theorem Ctrl.poke_ring (c : Ctrl) {offset : U32} (v : U32)
    (h : ¬ (offset = 0x0C ∨ offset = 0x28 ∨ offset = 0x2C)) :
    (c.poke offset v).cqSize = c.cqSize ∧ (c.poke offset v).cqWriteIdx = c.cqWriteIdx ∧
      (c.poke offset v).cqReadIdx = c.cqReadIdx := by
  simp only [not_or] at h
  obtain ⟨h1, h2, h3⟩ := h
  refine ⟨?_, ?_, ?_⟩
  · unfold Ctrl.poke
    repeat' refine proj_ite Ctrl.cqSize (fun hoff => ?_) (fun hoff => ?_)
    all_goals first | contradiction | rfl
  · unfold Ctrl.poke
    repeat' refine proj_ite Ctrl.cqWriteIdx (fun hoff => ?_) (fun hoff => ?_)
    all_goals first | contradiction | rfl
  · unfold Ctrl.poke
    repeat' refine proj_ite Ctrl.cqReadIdx (fun hoff => ?_) (fun hoff => ?_)
    all_goals first | contradiction | rfl

namespace St

variable {s : St} {inp : Input} {i : Nat}

theorem RingWord.congr {s t : St} (h : t.ring = s.ring) {addr : U32} :
    t.RingWord addr ↔ s.RingWord addr := by
  simp only [St.ring, Prod.mk.injEq] at h
  rw [RingWord, RingWord, h.1, h.2.2.2.1]

theorem storeWord_stored (s : St) (a v : U32) : Stored s [(a, v)] (s.storeWord a v) := by
  simp only [storeWord]
  split
  · rename_i hn
    exact ⟨rfl, rfl, rfl, rfl, rfl, rfl, rfl, rfl, rfl, rfl, ⟨[], rfl, by simp⟩,
      fun h => absurd hn (h _ (mem_singleton_self _)), fun _ => rfl⟩
  · split
    · rename_i hq
      exact ⟨rfl, rfl, rfl, rfl, rfl, rfl, rfl, rfl, rfl, rfl, ⟨[], rfl, by simp⟩, fun _ => rfl,
        fun h => absurd (.inl hq) (h _ (mem_singleton_self _))⟩
    · split
      · split <;>
        exact ⟨rfl, rfl, rfl, rfl, rfl, rfl, rfl, rfl, rfl, rfl, ⟨[], rfl, by simp⟩, fun _ => rfl,
          fun _ => rfl⟩
      · split
        · refine ⟨rfl, rfl, rfl, rfl, rfl, rfl, rfl, rfl, rfl, rfl, ⟨[(a, v)], rfl, fun _ h => h⟩,
            fun _ => rfl, fun h => ?_⟩
          obtain ⟨h1, h2, h3⟩ := s.ctrl.poke_ring v
            (not_or.mp (h _ (mem_singleton_self _))).2
          simp only [St.ring, h1, h2, h3]
        · split <;>
          exact ⟨rfl, rfl, rfl, rfl, rfl, rfl, rfl, rfl, rfl, rfl, ⟨[], rfl, by simp⟩, fun _ => rfl,
            fun _ => rfl⟩

theorem foldl_storeWord_stored (ws : List (U32 × U32)) :
    ∀ s : St, Stored s ws (ws.foldl (fun s w => s.storeWord w.1 w.2) s) := by
  induction ws with
  | nil =>
    exact fun s => ⟨rfl, rfl, rfl, rfl, rfl, rfl, rfl, rfl, rfl, rfl, ⟨[], rfl, by simp⟩,
      fun _ => rfl, fun _ => rfl⟩
  | cons w ws ih =>
    intro s
    have h1 := s.storeWord_stored w.1 w.2
    have h2 := ih (s.storeWord w.1 w.2)
    obtain ⟨vs1, hc1, hv1⟩ := h1.ctrl
    obtain ⟨vs2, hc2, hv2⟩ := h2.ctrl
    rw [foldl_cons]
    refine ⟨h2.status.trans h1.status, h2.inflight.trans h1.inflight, h2.count.trans h1.count,
      h2.base.trans h1.base, h2.image.trans h1.image, h2.log.trans h1.log, h2.appended.trans h1.appended,
      h2.errors.trans h1.errors, h2.overrun.trans h1.overrun, h2.scan.trans h1.scan,
      ⟨vs1 ++ vs2, ?_, ?_⟩, ?_, ?_⟩
    · rw [hc2, hc1, Ctrl.pokes, Ctrl.pokes, Ctrl.pokes, foldl_append]
    · intro v hv
      rcases mem_append.mp hv with hv | hv
      · exact mem_cons.mpr (.inl (mem_singleton.mp (hv1 v hv)))
      · exact mem_cons_of_mem _ (hv2 v hv)
    · intro h
      rw [h2.nodes ?_, h1.nodes ?_]
      · intro v hv
        rw [mem_singleton.mp hv]
        exact h w mem_cons_self
      · intro v hv
        rw [Core.InNodes, h1.base, h1.count]
        exact h v (mem_cons_of_mem _ hv)
    · intro h
      have hring := h1.ring fun v hv => by
        rw [mem_singleton.mp hv]
        exact h w mem_cons_self
      refine (h2.ring fun v hv => ?_).trans hring
      rw [RingWord.congr hring]
      exact h v (mem_cons_of_mem _ hv)

/-- The DMA packets are folds over their stores. -/
theorem executeImmediate_dma (hp : (∃ p, (s.nodes i).payload = .dmaCopy p) ∨
    ∃ p, (s.nodes i).payload = .dmaFill p) :
    s.executeImmediate inp i =
      ((s.nodes i).payload.stores inp).foldl (fun s w => s.storeWord w.1 w.2) s := by
  rcases hp with ⟨p, hp⟩ | ⟨p, hp⟩
  · simp [executeImmediate, hp, Payload.stores, foldl_map]
  · simp [executeImmediate, hp, Payload.stores, foldl_map]

end St

/-- What a run keeps besides its stores: control block, completion queue, errors, flags. -/
def St.books (s : St) :
    Ctrl × List CqEntry × List ErrorEvent × Bool × (Bool × Bool) × U32 × (Nat → CqEntry) :=
  (s.ctrl, s.appended, s.errors, s.overrun, s.scan, s.cqBase, s.cq)

/-- A packet without stores that touches neither the books nor the table. -/
theorem Prepared.quiet {s u : St} {inp : Input} {i : Nat} (evs : List Event)
    (hstatus : ∀ j, u.status j = s.status j ∨ u.status j = .pending ∧ s.toCore.Resets i j)
    (hinflight : u.inflight = s.inflight) (hcount : u.nodeCount = s.nodeCount)
    (hlog : u.log = evs ++ s.log) (hevs : ∀ e ∈ evs, e.Prepares s.toCore i)
    (himage : u.activeImageId = imageAfter s.activeImageId evs)
    (hbooks : u.books = s.books) (hnodes : u.nodes = s.nodes)
    (hinst : u.activeImageId = (s.nodes i).payload.installs s.activeImageId) :
    Prepared s inp i u := by
  simp only [St.books, Prod.mk.injEq] at hbooks
  obtain ⟨hctrl, happ, herr, hover, hscan, hbase, hcq⟩ := hbooks
  exact ⟨hstatus, hinflight, hcount, ⟨evs, hlog, hevs, himage⟩, happ, herr, hover,
    hscan, ⟨[], hctrl, by simp⟩, fun _ => hnodes,
    fun _ => by rw [St.ring, St.ring, hctrl, hbase, hcq], hinst⟩

namespace St

variable {s : St} {inp : Input} {i : Nat}

@[simp] theorem note_books (s : St) (e : Event) : (s.note e).books = s.books := rfl

@[simp] theorem setStatus_books (s : St) (i : Nat) (st : Status) :
    (s.setStatus i st).books = s.books := rfl

@[simp] theorem raise_books (s : St) (i b : Nat) (m : U32) :
    (s.raise i b m).books = s.books := rfl

@[simp] theorem raiseOwn_books (s : St) (i : Nat) : (s.raiseOwn i).books = s.books := rfl

@[simp] theorem addInflight_books (s : St) (now : U32) (i : Nat) (kd : KernelDispatch) :
    (s.addInflight now i kd).books = s.books := rfl

@[simp] theorem removeInflight_books (s : St) (idx : Nat) :
    (s.removeInflight idx).books = s.books := rfl

@[simp] theorem mmioRead_books (s : St) (inp : Input) (addr : U32) :
    (s.mmioRead inp addr).books = s.books := rfl

theorem foldl_books {α : Type} {f : St → α → St} (hf : ∀ s a, (f s a).books = s.books) :
    ∀ (l : List α) (s : St), (l.foldl f s).books = s.books
  | [], _ => rfl
  | a :: l, s => by rw [foldl_cons, foldl_books hf l, hf]

@[simp] theorem launchKernel_books (s : St) (inp : Input) (i : Nat) (kd : KernelDispatch) :
    (s.launchKernel inp i kd).books = s.books :=
  foldl_books (f := fun (s : St) (p : U32 × U32) => s.mmioWrite (kd.kernelBaseAddr + p.1) p.2)
    (fun _ _ => rfl) ((s.mmioRead inp kd.kernelBaseAddr).argPairs kd)
    (s.mmioRead inp kd.kernelBaseAddr)

theorem prepared_note (himg : (s.nodes i).payload.installs s.activeImageId = s.activeImageId) :
    Prepared s inp i (s.note (.activate i)) :=
  .quiet [.activate i] (fun _ => .inl rfl) rfl rfl rfl (by simp [Event.Prepares]) rfl rfl rfl
    himg.symm

/-- `execute_immediate` is the whole of an immediate packet before it completes. -/
theorem prepared_immediate
    (himg : (s.nodes i).payload.installs s.activeImageId = s.activeImageId) :
    Prepared s inp i ((s.note (.activate i)).executeImmediate inp i) := by
  have hn : (s.note (.activate i)).nodes i = s.nodes i := rfl
  cases hp : (s.nodes i).payload with
  | signal p =>
    simp only [executeImmediate, hn, hp]
    exact .quiet [.activate i] (fun _ => .inl rfl) rfl rfl rfl (by simp [Event.Prepares]) rfl rfl rfl
      himg.symm
  | scalarRead p =>
    simp only [executeImmediate, hn, hp]
    exact .quiet [.capture i _ _, .activate i] (fun _ => .inl rfl) rfl rfl rfl
      (by simp [Event.Prepares]) rfl rfl rfl himg.symm
  | scalarWrite ws =>
    simp only [executeImmediate, hn, hp]
    have hc := foldl_mmioWrite_toCore (fun p : WritePair => p.addr) (fun p => p.value)
      ((ws.take scalarWriteMax).takeWhile fun p => p.addr ≠ 0) (s.note (.activate i))
    have hb := foldl_books (f := fun (s : St) (p : WritePair) => s.mmioWrite p.addr p.value)
      (fun _ _ => rfl) ((ws.take scalarWriteMax).takeWhile fun p => p.addr ≠ 0)
      (s.note (.activate i))
    generalize List.foldl _ _ _ = u at hc hb ⊢
    refine .quiet [.activate i] (fun j => .inl ?_) ?_ ?_ ?_ (by simp [Event.Prepares]) ?_ hb ?_ ?_
    all_goals rw [hc]
    all_goals first | rfl | exact himg.symm
  | scalarCopy p =>
    simp only [executeImmediate, hn, hp]
    exact .quiet [.activate i] (fun _ => .inl rfl) rfl rfl rfl (by simp [Event.Prepares]) rfl rfl rfl
      himg.symm
  | dmaCopy p | dmaFill p =>
    have hd := foldl_storeWord_stored ((s.nodes i).payload.stores inp) (s.note (.activate i))
    rw [executeImmediate_dma (by simp [hp]), hn]
    generalize List.foldl _ _ _ = u at hd ⊢
    exact ⟨fun j => .inl (congrFun hd.status j), hd.inflight, hd.count,
      ⟨[.activate i], hd.log, by simp [Event.Prepares], hd.image⟩, hd.appended, hd.errors, hd.overrun,
      hd.scan, hd.ctrl, hd.nodes, hd.ring, hd.image.trans himg.symm⟩
  | _ =>
    simp only [executeImmediate, hn, hp]
    exact prepared_note himg

end St

/-! ## Activation -/

/-- The image guard of a dispatch passes. -/
def Core.Guarded (c : Core) (kd : KernelDispatch) : Prop :=
  kd.expectedImageId = 0 ∨ kd.expectedImageId = c.activeImageId

/-- The codes `activate_nodes` latches for a packet that fails. -/
def Err.OfPacket : Err → Prop
  | .imageMismatch | .inflightFull | .pdiFailed | .pdiTimeout => True
  | _ => False

/-- A packet that failed with `code` stops the scan. -/
def stopsScan (flags : U16) (code : Err) : Prop :=
  hasFlag flags flagHaltOnError = true ∨ code = .inflightFull

/-- What activating node `i` does, and how the iteration ends. -/
inductive Turn (s : St) (inp : Input) (i : Nat) : St → Verdict → Prop where
  | finish {u t : St} {room : Room} (hu : Prepared s inp i u)
      (hw : Write ((u.setStatus i .done).raiseOwn i) inp (u.nodes i).flags (BitVec.ofNat 32 i)
        .ok 0 t room) : Turn s inp i t room.verdict
  | iterate {u : St} (p : Loop) (hp : (s.nodes i).payload = .loop p)
      (hx : s.toCore.loopExits p = false) (hu : Prepared s inp i u) :
      Turn s inp i (u.setStatus i .done) (.next true)
  | park (p : Wait) (hp : (s.nodes i).payload = .wait p) :
      Turn s inp i ((s.note (.activate i)).setStatus i .waiting) (.next false)
  | launch (kd : KernelDispatch) (hp : (s.nodes i).payload = .kernelDispatch kd)
      (hg : s.toCore.Guarded kd) (hlen : s.inflight.length < maxInflight)
      (hf : hasFlag (s.nodes i).flags flagInfinite = false) :
      Turn s inp i ((((s.note (.activate i)).launchKernel inp i kd).setStatus i
        .dispatched).addInflight inp.now i kd) (.next true)
  | launchInfinite {t : St} {room : Room} (kd : KernelDispatch)
      (hp : (s.nodes i).payload = .kernelDispatch kd) (hg : s.toCore.Guarded kd)
      (hlen : s.inflight.length < maxInflight)
      (hf : hasFlag (s.nodes i).flags flagInfinite = true)
      (hw : Write ((((s.note (.activate i)).launchKernel inp i kd).setStatus i
        .done).raiseOwn i) inp (s.nodes i).flags (BitVec.ofNat 32 i) .ok 0 t room)
      (hroom : room ≠ .corrupt) : Turn s inp i (t.addInflight inp.now i kd) (.next true)
  /-- `add_inflight` comes after the entry, so a corrupt queue leaves this kernel untracked. -/
  | launchLost {t : St} (kd : KernelDispatch) (hp : (s.nodes i).payload = .kernelDispatch kd)
      (hg : s.toCore.Guarded kd) (hlen : s.inflight.length < maxInflight)
      (hf : hasFlag (s.nodes i).flags flagInfinite = true)
      (hw : Write ((((s.note (.activate i)).launchKernel inp i kd).setStatus i
        .done).raiseOwn i) inp (s.nodes i).flags (BitVec.ofNat 32 i) .ok 0 t .corrupt) :
      Turn s inp i t (.stop .error)
  | failStop {t : St} {room : Room} (code : Err) (detail aux : U32) (cst : CqStatus)
      (cdetail : U32) (hcode : code.OfPacket) (hcst : cst = .error ∨ cst = .timeout)
      (hw : Write (((s.note (.activate i)).setStatus i .error).latch code (BitVec.ofNat 32 i)
        detail aux (hasFlag (s.nodes i).flags flagHaltOnError)) inp (s.nodes i).flags
        (BitVec.ofNat 32 i) cst cdetail t room)
      (hstop : room = .corrupt ∨ stopsScan (s.nodes i).flags code) :
      Turn s inp i t (.stop .error)
  | failOn {t : St} {room : Room} (code : Err) (detail aux : U32) (cst : CqStatus)
      (cdetail : U32) (hcode : code.OfPacket) (hcst : cst = .error ∨ cst = .timeout)
      (hw : Write (((s.note (.activate i)).setStatus i .error).latch code (BitVec.ofNat 32 i)
        detail aux (hasFlag (s.nodes i).flags flagHaltOnError)) inp (s.nodes i).flags
        (BitVec.ofNat 32 i) cst cdetail t room)
      (hroom : room ≠ .corrupt) (hgo : ¬ stopsScan (s.nodes i).flags code) :
      Turn s inp i (t.raiseOwn i) (.next true)
  | halt {t : St} {room : Room}
      (hw : Write ((s.note (.activate i)).setStatus i .done) inp (s.nodes i).flags
        (BitVec.ofNat 32 i) .ok 0 t room) {v : Verdict}
      (hv : v = if room = .corrupt then .stop .error else .stop .halt) : Turn s inp i t v
  | hang {u : St} (hu : Prepared s inp i u) : Turn s inp i u .hang

namespace St

variable {s : St} {inp : Input} {i : Nat}

/-- A prepared packet that completes. -/
theorem complete_turn {u : St} (hu : Prepared s inp i u) :
    Turn s inp i (u.complete inp i).1 (u.complete inp i).2 := by
  obtain ⟨room, hw, hv⟩ := publish_write ((u.setStatus i .done).raiseOwn i) inp (u.nodes i).flags
    i .ok 0
  rw [complete, hv]
  exact .finish hu hw

theorem fail_turn (code : Err) {detail aux : U32} {cst : CqStatus} {cdetail : U32}
    (hcode : code.OfPacket) (hcst : cst = .error ∨ cst = .timeout) {k : St → St × Verdict}
    (hk : ∀ t : St, (stopsScan (s.nodes i).flags code ∧ k t = (t, .stop .error)) ∨
      (¬ stopsScan (s.nodes i).flags code ∧ k t = (t.raiseOwn i, .next true))) :
    let r := andThen ((((s.note (.activate i)).setStatus i .error).latch code (BitVec.ofNat 32 i)
      detail aux (hasFlag (s.nodes i).flags flagHaltOnError)).publish inp (s.nodes i).flags i cst
      cdetail) k
    Turn s inp i r.1 r.2 := by
  intro r
  obtain ⟨room, hw, hv⟩ := publish_write (((s.note (.activate i)).setStatus i .error).latch code
    (BitVec.ofNat 32 i) detail aux (hasFlag (s.nodes i).flags flagHaltOnError)) inp
    (s.nodes i).flags i cst cdetail
  have hr : r = andThen _ k := rfl
  generalize St.publish _ _ _ _ _ _ = q at hr hw hv
  obtain ⟨t, v⟩ := q
  simp only at hv
  subst hv
  rw [hr]
  cases room with
  | corrupt => exact .failStop code detail aux cst cdetail hcode hcst hw (.inl rfl)
  | full | ready =>
    simp only [andThen, Room.verdict]
    rcases hk t with ⟨hs, he⟩ | ⟨hs, he⟩
    · rw [he]
      exact .failStop code detail aux cst cdetail hcode hcst hw (.inr hs)
    · rw [he]
      exact .failOn code detail aux cst cdetail hcode hcst hw (by simp) hs

theorem activateKernel_turn {kd : KernelDispatch}
    (hp : (s.nodes i).payload = .kernelDispatch kd) :
    Turn s inp i ((s.note (.activate i)).activateKernel inp i kd).1
      ((s.note (.activate i)).activateKernel inp i kd).2 := by
  simp only [activateKernel]
  split
  · refine fail_turn .imageMismatch trivial (by simp) (fun t => ?_)
    simp only [stopsScan]
    split
    · rename_i h
      exact .inl ⟨.inl h, rfl⟩
    · rename_i h
      exact .inr ⟨by simpa using h, rfl⟩
  · rename_i hguard
    have hg : s.toCore.Guarded kd := by
      simp only [Core.Guarded]
      by_contra hn
      exact hguard (not_or.mp hn)
    split
    · exact fail_turn .inflightFull trivial (by simp) (fun t => .inl ⟨.inr rfl, rfl⟩)
    · rename_i hlen
      have hlen : s.inflight.length < maxInflight := Nat.lt_of_not_ge hlen
      split
      · rename_i hf
        have hn : ((s.note (.activate i)).launchKernel inp i kd).nodes i = s.nodes i := by
          rw [launchKernel_toCore]
          rfl
        obtain ⟨room, hw, hv⟩ := publish_write
          ((((s.note (.activate i)).launchKernel inp i kd).setStatus i .done).raiseOwn i) inp
          (s.nodes i).flags i .ok 0
        simp only [complete, hn]
        generalize St.publish _ _ _ _ _ _ = q at hw hv ⊢
        obtain ⟨t, v⟩ := q
        simp only at hv
        subst hv
        cases room with
        | corrupt => exact .launchLost kd hp hg hlen hf hw
        | full | ready => exact .launchInfinite kd hp hg hlen hf hw (by simp)
      · rename_i hf
        exact .launch kd hp hg hlen (by simpa using hf)

theorem activatePdi_turn {p : PdiLoad} (hp : (s.nodes i).payload = .pdiLoad p) :
    Turn s inp i ((s.note (.activate i)).activatePdi inp i p).1
      ((s.note (.activate i)).activatePdi inp i p).2 := by
  simp only [activatePdi]
  have hk : ∀ code, code ≠ Err.inflightFull → ∀ t : St,
      (stopsScan (s.nodes i).flags code ∧
        (if hasFlag (s.nodes i).flags flagHaltOnError = true then (t, Verdict.stop .error)
          else (t.raiseOwn i, Verdict.next true)) = (t, .stop .error)) ∨
      (¬ stopsScan (s.nodes i).flags code ∧
        (if hasFlag (s.nodes i).flags flagHaltOnError = true then (t, Verdict.stop .error)
          else (t.raiseOwn i, Verdict.next true)) = (t.raiseOwn i, .next true)) := by
    intro code hc t
    cases hf : hasFlag (s.nodes i).flags flagHaltOnError with
    | true => exact .inl ⟨.inl hf, rfl⟩
    | false => exact .inr ⟨by simp [stopsScan, hf, hc], rfl⟩
  cases inp.pdi with
  | ok =>
    exact complete_turn (.quiet [.loaded i p.imageId, .activate i] (fun _ => .inl rfl) rfl rfl rfl
      (by simp [Event.Prepares]) rfl rfl rfl (by rw [hp]; rfl))
  | timeout => exact fail_turn .pdiTimeout trivial (by simp) (hk _ (by simp))
  | plmError st d => exact fail_turn .pdiFailed trivial (by simp) (hk _ (by simp))

theorem imageAfter_rearm (img : U32) (evs : List Event) (body : List Nat) :
    imageAfter img (body.map (fun n => Event.status n .pending) ++ evs) = imageAfter img evs := by
  induction body with
  | nil => rfl
  | cons n l ih => exact ih

theorem prepared_rearm {u t : St} {cs ce : U8} {bs be : U32} (hu : Prepared s inp i u)
    (hreset : ∀ j, bs.toNat ≤ j → j ≤ be.toNat → s.toCore.Resets i j)
    (hr : u.rearm cs ce bs be = some t) : Prepared s inp i t := by
  simp only [rearm] at hr
  split at hr
  · rename_i buckets body hbuckets hbody
    cases hr
    obtain ⟨evs, hlog, hevs, himage⟩ := hu.log
    refine ⟨fun j => ?_, hu.inflight, hu.count,
      ⟨body.reverse.map (fun n => Event.status n .pending) ++ evs, ?_, ?_, ?_⟩, hu.appended,
      hu.errors, hu.overrun, hu.scan, hu.ctrl, hu.nodes, hu.ring, hu.installs⟩
    · by_cases hj : j ∈ body
      · obtain ⟨hlo, hhi⟩ := (mem_of_span hbody j).mp hj
        exact .inr ⟨fill_mem _ _ hj, hreset j hlo hhi⟩
      · rw [show (u.toCore.rearm buckets body).status j = u.status j from fill_not_mem _ _ hj]
        exact hu.status j
    · rw [append_assoc, ← hlog]
      rfl
    · intro e he
      rcases mem_append.mp he with he | he
      · obtain ⟨n, hn, rfl⟩ := mem_map.mp he
        obtain ⟨hlo, hhi⟩ := (mem_of_span hbody n).mp (mem_reverse.mp hn)
        exact ⟨rfl, hreset n hlo hhi⟩
      · exact hevs e he
    · rw [imageAfter_rearm]
      exact himage
  · cases hr

theorem activateLoop_turn {p : Loop} (hp : (s.nodes i).payload = .loop p) :
    Turn s inp i ((s.note (.activate i)).activateLoop inp i p).1
      ((s.note (.activate i)).activateLoop inp i p).2 := by
  have hcount : Prepared s inp i { s.note (.activate i) with
      toCore := (s.note (.activate i)).toCore.countLoop i p } :=
    .quiet [.test i _ _, .activate i] (fun _ => .inl rfl) rfl rfl rfl (by simp [Event.Prepares])
      rfl rfl rfl (by rw [hp]; rfl)
  simp only [activateLoop]
  cases hx : (s.note (.activate i)).toCore.loopExits p with
  | true => exact complete_turn hcount
  | false =>
    simp only [Bool.false_eq_true, if_false]
    cases hr : St.rearm _ p.bucketClearStart p.bucketClearEnd p.bodyStart p.bodyEnd with
    | none => exact .hang hcount
    | some t =>
      refine .iterate p hp hx (prepared_rearm hcount (fun j hlo hhi => ?_) hr)
      simp only [Core.Resets, hp]
      exact ⟨hx, hlo, hhi⟩

theorem activateCond_turn {p : Cond} (hp : (s.nodes i).payload = .cond p) :
    Turn s inp i ((s.note (.activate i)).activateCond inp i p).1
      ((s.note (.activate i)).activateCond inp i p).2 := by
  simp only [activateCond]
  cases hm : (s.note (.activate i)).toCore.condMet p with
  | true =>
    exact complete_turn (.quiet [.raise i _ _, .test i _ _, .activate i] (fun _ => .inl rfl) rfl rfl
      rfl (by simp [Event.Prepares]) rfl rfl rfl (by rw [hp]; rfl))
  | false =>
    have htest : Prepared s inp i ((s.note (.activate i)).note
        (.test i ((s.note (.activate i)).signals p.conditionSignal.toNat) false)) :=
      .quiet [.test i _ _, .activate i] (fun _ => .inl rfl) rfl rfl rfl (by simp [Event.Prepares])
        rfl rfl rfl (by rw [hp]; rfl)
    simp only [Bool.false_eq_true, if_false]
    cases hr : St.rearm _ p.bucketClearStart p.bucketClearEnd p.bodyStart p.bodyEnd with
    | none => exact .hang htest
    | some t =>
      refine complete_turn (prepared_rearm htest (fun j hlo hhi => ?_) hr)
      simp only [Core.Resets, hp]
      exact ⟨hm, hlo, hhi⟩

theorem activateRerun_turn {p : Rerun} (hp : (s.nodes i).payload = .rerun p) :
    Turn s inp i ((s.note (.activate i)).activateRerun inp i p).1
      ((s.note (.activate i)).activateRerun inp i p).2 := by
  have hreset : s.toCore.Resets i p.targetNode.toNat := by simp only [Core.Resets, hp]
  have hstatus : ∀ j, ((s.note (.activate i)).setStatus p.targetNode.toNat .pending).status j =
      s.status j ∨ ((s.note (.activate i)).setStatus p.targetNode.toNat .pending).status j =
        .pending ∧ s.toCore.Resets i j := by
    intro j
    by_cases hj : j = p.targetNode.toNat
    · subst hj
      exact .inr ⟨upd_same _ _ _, hreset⟩
    · exact .inl (upd_ne _ _ hj)
  simp only [activateRerun]
  split <;>
  exact complete_turn (.quiet [.status p.targetNode.toNat .pending, .activate i] hstatus rfl rfl rfl
    (by simp [Event.Prepares, hreset]) rfl rfl rfl (by rw [hp]; rfl))

theorem activateWait_turn {p : Wait} (hp : (s.nodes i).payload = .wait p) :
    Turn s inp i ((s.note (.activate i)).activateWait inp i p).1
      ((s.note (.activate i)).activateWait inp i p).2 := by
  simp only [activateWait]
  split
  · exact complete_turn (prepared_note (by rw [hp]; rfl))
  · exact .park p hp

theorem activateHalt_turn :
    Turn s inp i ((s.note (.activate i)).activateHalt inp i).1
      ((s.note (.activate i)).activateHalt inp i).2 := by
  obtain ⟨room, hw, hv⟩ := publish_write ((s.note (.activate i)).setStatus i .done) inp
    (s.nodes i).flags i .ok 0
  have hn : (s.note (.activate i)).nodes i = s.nodes i := rfl
  simp only [activateHalt, hn]
  generalize St.publish _ _ _ _ _ _ = q at hw hv ⊢
  obtain ⟨t, v⟩ := q
  simp only at hv
  subst hv
  cases room with
  | corrupt => exact .halt hw rfl
  | full | ready => exact .halt hw rfl

/-- Everything activating a node does. -/
theorem activate_turn (s : St) (inp : Input) (i : Nat) :
    Turn s inp i (s.activate inp i).1 (s.activate inp i).2 := by
  have hn : (s.note (.activate i)).nodes i = s.nodes i := rfl
  simp only [activate, hn]
  cases hp : (s.nodes i).payload with
  | kernelDispatch kd => exact activateKernel_turn hp
  | pdiLoad p => exact activatePdi_turn hp
  | loop p => exact activateLoop_turn hp
  | cond p => exact activateCond_turn hp
  | rerun p => exact activateRerun_turn hp
  | wait p => exact activateWait_turn hp
  | halt => exact activateHalt_turn
  | _ => exact complete_turn (prepared_immediate (by rw [hp]; rfl))

end St

/-- One iteration of `activate_nodes`. -/
inductive Visited (s : St) (inp : Input) (i : Nat) : St → Verdict → Prop where
  | idle (hn : ¬ s.toCore.Eligible i) : Visited s inp i s (.next false)
  | blocked (he : s.toCore.Eligible i) (hroom : cqRoom (s.nodes i).flags s.ctrl = .full) :
      Visited s inp i { s with cqBlocked := true } (.next false)
  | corrupt (hroom : cqRoom (s.nodes i).flags s.ctrl = .corrupt) :
      Visited s inp i s.latchCorrupt (.stop .error)
  | turn {t : St} {v : Verdict} (he : s.toCore.Eligible i)
      (hroom : cqRoom (s.nodes i).flags s.ctrl = .ready) (ht : Turn s inp i t v) :
      Visited s inp i t v

theorem St.visit_visited (s : St) (inp : Input) (i : Nat) :
    Visited s inp i (s.visit inp i).1 (s.visit inp i).2 := by
  simp only [St.visit]
  split
  · rename_i he
    cases hroom : cqRoom (s.nodes i).flags s.ctrl with
    | corrupt => exact .corrupt hroom
    | full => exact .blocked he hroom
    | ready => exact .turn he hroom (s.activate_turn inp i)
  · rename_i hn
    exact .idle hn

end Slash.Rp1
