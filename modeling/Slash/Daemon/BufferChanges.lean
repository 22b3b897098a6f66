import Slash.Daemon.Changes

/-!
# Buffers come and go

How `buffer.c` makes a buffer and tears it down: what a creation leaves behind, whether it works or
not, and what goes when buffers are dropped.
-/

namespace Slash.Daemon

open Lib List
open Libvrtd (Ret)
open Vrtd

variable {σ τ : Scope} {w w' w'' : World}

/-! ## Queue pairs of a buffer -/

/-- The queue pairs the loop adds stand in front of the others, under ids that none of them has. -/
theorem addQpairs_spec (k : Driver) (dirMask : Nat) (owner : U64) (channels : List Nat) :
    ∀ (i : Nat) (qpairs : List Qpair) (qids : List Nat), ∃ added new ids,
      addQpairs k dirMask owner channels i qpairs qids = (added, new ++ qpairs, qids ++ ids) ∧
      (∀ q ∈ new, q.owner = some owner ∧ q.qid ∈ ids) ∧
      ∀ qid ∈ ids, qid ∉ qpairs.map (·.qid) := by
  induction channels with
  | nil => exact fun i qpairs qids => ⟨true, [], [], by simp [addQpairs], by simp, by simp⟩
  | cons channel channels ih =>
    intro i qpairs qids
    cases hadd : k.add i with
    | none => exact ⟨false, [], [], by simp [addQpairs, hadd], by simp, by simp⟩
    | some wish =>
      have hfree := unused_notMem (qpairs.map (·.qid)) wish
      generalize hqid : unused (qpairs.map (·.qid)) wish = qid at hfree
      by_cases hstart : k.start i = true
      · obtain ⟨added, new, ids, heq, hnew, hids⟩ :=
          ih (i + 1) (⟨qid, dirMask, channel, true, some owner, false⟩ :: qpairs) (qids ++ [qid])
        refine ⟨added, new ++ [⟨qid, dirMask, channel, true, some owner, false⟩], qid :: ids, ?_,
          ?_, ?_⟩
        · simp only [addQpairs, hadd, hqid, hstart, if_true, heq]
          simp
        · intro q hq
          rcases mem_append.mp hq with hq | hq
          · exact ⟨(hnew q hq).1, mem_cons_of_mem _ (hnew q hq).2⟩
          · rw [mem_singleton.mp hq]
            exact ⟨rfl, mem_cons_self⟩
        · intro x hx
          rcases mem_cons.mp hx with rfl | hx
          · exact hfree
          · exact fun hmem => hids x hx (mem_cons_of_mem _ hmem)
      · refine ⟨false, [⟨qid, dirMask, channel, false, some owner, false⟩], [qid], ?_, ?_, ?_⟩
        · simp only [addQpairs, hadd, hqid, hstart]
          simp
        · intro q hq
          rw [mem_singleton.mp hq]
          exact ⟨rfl, mem_cons_self⟩
        · intro x hx
          rw [mem_singleton.mp hx]
          exact hfree

def Driver.releaseAll (k : Driver) (qids : List Nat) (qpairs : List Qpair) : List Qpair :=
  qids.foldl (fun qpairs qid => k.release qid qpairs) qpairs

variable {k : Driver} {qpairs : List Qpair}

theorem mem_release {qid : Nat} {q : Qpair} (h : q ∈ k.release qid qpairs) :
    q ∈ qpairs ∧ q.qid ≠ qid ∨ q.refused = true ∧ k.del qid = false ∧
      ∃ p ∈ qpairs, p.qid = qid ∧ q.qid = qid ∧ p.owner = q.owner := by
  obtain ⟨p, hp, heq⟩ := mem_filterMap.mp h
  by_cases hqid : p.qid = qid
  · rw [if_pos hqid] at heq
    by_cases hdel : k.del qid = true
    · rw [if_pos hdel] at heq
      cases heq
    · rw [if_neg hdel] at heq
      cases heq
      exact .inr ⟨rfl, by simpa using hdel, p, hp, hqid, hqid, rfl⟩
  · rw [if_neg hqid] at heq
    cases heq
    exact .inl ⟨hp, hqid⟩

theorem mem_releaseAll {qids : List Nat} {q : Qpair} (h : q ∈ k.releaseAll qids qpairs) :
    q ∈ qpairs ∧ q.qid ∉ qids ∨ q.refused = true ∧ (∃ qid ∈ qids, k.del qid = false) ∧
      ∃ p ∈ qpairs, p.qid = q.qid ∧ p.owner = q.owner := by
  induction qids generalizing qpairs with
  | nil => exact .inl ⟨h, by simp⟩
  | cons qid qids ih =>
    rcases @ih (k.release qid qpairs) h with
      ⟨hq, hnot⟩ | ⟨href, ⟨x, hx, hdel⟩, p, hp, hpq, howner⟩
    · rcases mem_release hq with ⟨hq, hne⟩ | ⟨href, hdel, p, hp, hpq, hqq, howner⟩
      · exact .inl ⟨hq, by simp [hne, hnot]⟩
      · exact .inr ⟨href, ⟨qid, mem_cons_self, hdel⟩, p, hp, hpq.trans hqq.symm, howner⟩
    · refine .inr ⟨href, ⟨x, mem_cons_of_mem _ hx, hdel⟩, ?_⟩
      rcases mem_release hp with ⟨hp, -⟩ | ⟨-, -, p', hp', hpq', hqq', howner'⟩
      · exact ⟨p, hp, hpq, howner⟩
      · exact ⟨p', hp', hpq'.trans (hqq'.symm.trans hpq), howner'.trans howner⟩

theorem releaseAll_append (k : Driver) (qids : List Nat) (new qpairs : List Qpair) :
    k.releaseAll qids (new ++ qpairs) = k.releaseAll qids new ++ k.releaseAll qids qpairs := by
  induction qids generalizing new qpairs with
  | nil => rfl
  | cons qid qids ih =>
    have happ : k.release qid (new ++ qpairs) = k.release qid new ++ k.release qid qpairs :=
      filterMap_append
    show k.releaseAll qids (k.release qid (new ++ qpairs)) = _
    rw [happ]
    exact ih _ _

theorem releaseAll_of_notMem (k : Driver) {qids : List Nat}
    (h : ∀ qid ∈ qids, qid ∉ qpairs.map (·.qid)) : k.releaseAll qids qpairs = qpairs := by
  induction qids with
  | nil => rfl
  | cons qid qids ih =>
    have hsame : k.release qid qpairs = qpairs := by
      refine (filterMap_congr fun q hq => ?_).trans filterMap_some
      rw [if_neg fun heq => h qid mem_cons_self (mem_map.mpr ⟨q, hq, heq⟩)]
    show k.releaseAll qids (k.release qid qpairs) = qpairs
    rw [hsame]
    exact ih fun x hx => h x (mem_cons_of_mem _ hx)

/-! ## Making a buffer -/

/-- Queue pairs made for a buffer: in front of the others, known to the buffer. -/
structure Made (d : Device) (owner : U64) (new : List Qpair) (ids : List Nat) : Prop where
  new : ∀ q ∈ new, q.owner = some owner ∧ q.qid ∈ ids
  ids : ∀ qid ∈ ids, qid ∉ d.qpairs.map (·.qid)

variable {b : Buffer}

theorem attachQpairs_spec (w : World) (d : Device) (dirMask mmChannel : Nat) (k : Driver)
    (hfd : b.fd = none) : ∃ new ids, Made d b.clientId new ids ∧
      ((∃ wish, attachQpairs w d b dirMask mmChannel k =
        ({ w with
          fds := w.fds.set (unused w.fds.numbers wish)
            ⟨w.next, .transfer d.id b.clientId b.id⟩
          next := w.next + 1
          ledger := w.ledger.handOut w.next }.updDevice d.id fun x => { x with qpairs := new ++ d.qpairs },
          .ok { b with qids := ids, fd := some (unused w.fds.numbers wish) })) ∨
      attachQpairs w d b dirMask mmChannel k =
        (w.updDevice d.id fun x =>
          ({ x with qpairs := new ++ d.qpairs } : Device).releaseBuffer { b with qids := ids } k,
          .error k.errno)) := by
  obtain ⟨added, new, ids, heq, hnew, hids⟩ := addQpairs_spec k dirMask b.clientId
    (bufferPlanQpairChannels mmChannel) 0 d.qpairs []
  refine ⟨new, ids, ⟨hnew, hids⟩, ?_⟩
  have hfail : cleanupBuffer (w.updDevice d.id fun x => { x with qpairs := new ++ d.qpairs }) d.id
      { b with qids := ids } k = w.updDevice d.id fun x =>
        ({ x with qpairs := new ++ d.qpairs } : Device).releaseBuffer { b with qids := ids } k := by
    simp only [cleanupBuffer, hfd, Option.toList_none]
    exact updDevice_updDevice (w := w) fun _ => rfl
  unfold attachQpairs
  rw [heq]
  simp only [nil_append]
  cases added with
  | false => exact .inr (by simp only [hfail])
  | true =>
    cases k.getFd with
    | none => exact .inr (by simp only [hfail])
    | some wish => exact .inl ⟨wish, rfl⟩

/-- The teardown of a buffer that never got into the list gives back what its making took. -/
def Restores (d : Device) (map : DeviceMemoryMap) (b : Buffer) : Prop :=
  (if b.allocationValid then (deviceMemoryMapFree map b.allocType b.addr b.size b.clientId).2
    else map) = d.memoryMap

/-- What a failed creation leaves of the device: everything, and of the queue pairs it added those
that the driver would not delete. -/
structure Unmade (d d' : Device) (k : Driver) : Prop where
  mild : d.Mild d'
  kept : ∀ q ∈ d'.qpairs, q ∈ d.qpairs ∨ q.refused = true
  clean : (∀ qid, k.del qid = true) → d'.qpairs = d.qpairs

variable {d : Device}

theorem unmade_release {map : DeviceMemoryMap} {new : List Qpair} (k : Driver)
    (hmade : Made d b.clientId new b.qids) (hrestores : Restores d map b) :
    Unmade d (({ d with memoryMap := map, qpairs := new ++ d.qpairs } : Device).releaseBuffer b k)
      k := by
  have hq : (({ d with memoryMap := map, qpairs := new ++ d.qpairs } : Device).releaseBuffer
      b k).qpairs = k.releaseAll b.qids new ++ d.qpairs := by
    show k.releaseAll b.qids (new ++ d.qpairs) = _
    rw [releaseAll_append, releaseAll_of_notMem k hmade.ids]
  have hleft : ∀ q ∈ k.releaseAll b.qids new, q.refused = true ∧ ∃ qid, k.del qid = false := by
    intro q hq
    rcases mem_releaseAll hq with ⟨hmem, hnot⟩ | ⟨href, ⟨qid, -, hdel⟩, -⟩
    · exact absurd (hmade.new q hmem).2 hnot
    · exact ⟨href, qid, hdel⟩
  have hkept : ∀ q ∈ k.releaseAll b.qids new ++ d.qpairs, q ∈ d.qpairs ∨ q.refused = true := by
    intro q hq
    rcases mem_append.mp hq with hq | hq
    · exact .inr (hleft q hq).1
    · exact .inl hq
  refine ⟨⟨rfl, rfl, hrestores, rfl, rfl, rfl, ?_⟩, hq ▸ hkept, fun hall => ?_⟩
  · rw [hq]
    intro q hq
    rcases hkept q hq with hmem | href
    · exact .inr (.inr ⟨q, hmem, rfl, rfl, rfl⟩)
    · exact .inr (.inl href)
  · have hnil : k.releaseAll b.qids new = [] := eq_nil_iff_forall_not_mem.mpr fun q hq => by
      obtain ⟨-, qid, hdel⟩ := hleft q hq
      rw [hall qid] at hdel
      cases hdel
    rw [hq, hnil, nil_append]

theorem Unmade.same {d d' : Device} (hid : d'.id = d.id) (hbdf : d'.bdf = d.bdf)
    (hmap : d'.memoryMap = d.memoryMap) (hw : d'.writer = d.writer) (hbars : d'.bars = d.bars)
    (hbuf : d'.buffers = d.buffers) (hq : d'.qpairs = d.qpairs) : Unmade d d' k :=
  ⟨⟨hid, hbdf, hmap, hw, hbars, hbuf, fun q hmem => .inr (.inr ⟨q, hq ▸ hmem, rfl, rfl, rfl⟩)⟩,
    fun _ hmem => .inl (hq ▸ hmem), fun _ => hq⟩

/-- A buffer that may be put into the list of a device whose map it was cut from. -/
structure Fitting (d : Device) (map : DeviceMemoryMap) (b : Buffer) : Prop where
  memory : Arena.Sound ⟨map, d.blocks ++ b.block?.toList⟩
  placed : b.Placed

/-- The two ways a creation can end: a buffer with its queue pairs and its descriptor, or an error
that leaves the device as it was, but for queue pairs that the driver kept. -/
inductive Creation (w : World) (d : Device) (connId : U64) (k : Driver) :
    World × Except Errno Buffer → Prop where
  | refused (e : Errno) (next : Nat) (f : Device → Device) : w.next ≤ next →
      (∀ x, (f x).id = x.id) → Unmade d (f d) k →
      Creation w d connId k ({ w with next := next }.updDevice d.id f, .error e)
  | made (b : Buffer) (map : DeviceMemoryMap) (new : List Qpair) (wish : Nat)
      (f : Device → Device) : (∀ x, (f x).id = x.id) →
      f d = { d with memoryMap := map, qpairs := new ++ d.qpairs } → Fitting d map b →
      Restores d map b → Made d connId new b.qids → b.clientId = connId → b.id = w.next →
      b.fd = some (unused w.fds.numbers wish) →
      Creation w d connId k ({ w with
        fds := w.fds.set (unused w.fds.numbers wish) ⟨w.next + 1, .transfer d.id connId b.id⟩
        next := w.next + 2
        ledger := w.ledger.handOut (w.next + 1) }.updDevice d.id f, .ok b)

theorem updDevice_self (w : World) (id : Nat) : (w.updDevice id fun d => d) = w := by
  simp [World.updDevice]

theorem attach_creation (w : World) (d : Device) {m : DeviceMemoryMap} {f : Device → Device}
    (dirMask mmChannel : Nat) (k : Driver) (hf : ∀ x, (f x).id = x.id)
    (hfd : f d = { d with memoryMap := m }) (hfit : Fitting d m b) (hrestores : Restores d m b)
    (hid : b.id = w.next) (hnone : b.fd = none) :
    Creation w d b.clientId k (attachQpairs ({ w with next := w.next + 1 }.updDevice d.id f) d b
      dirMask mmChannel k) := by
  obtain ⟨new, ids, hmade, ⟨wish, heq⟩ | heq⟩ := attachQpairs_spec
    ({ w with next := w.next + 1 }.updDevice d.id f) d dirMask mmChannel k hnone
  · rw [heq]
    have hworld : ({ { w with next := w.next + 1 }.updDevice d.id f with
        fds := w.fds.set (unused w.fds.numbers wish) ⟨w.next + 1, .transfer d.id b.clientId b.id⟩
        next := w.next + 2
        ledger := w.ledger.handOut (w.next + 1) }.updDevice d.id
          fun x => { x with qpairs := new ++ d.qpairs }) =
        { w with
          fds := w.fds.set (unused w.fds.numbers wish)
            ⟨w.next + 1, .transfer d.id b.clientId b.id⟩
          next := w.next + 2
          ledger := w.ledger.handOut (w.next + 1) }.updDevice d.id
            fun x => { f x with qpairs := new ++ d.qpairs } :=
      updDevice_updDevice (w := { w with
        fds := w.fds.set (unused w.fds.numbers wish) ⟨w.next + 1, .transfer d.id b.clientId b.id⟩
        next := w.next + 2
        ledger := w.ledger.handOut (w.next + 1) }) hf
    have hcreated := @Creation.made w d b.clientId k
      { b with qids := ids, fd := some (unused w.fds.numbers wish) } m new wish
      (fun x => { f x with qpairs := new ++ d.qpairs }) hf (by rw [hfd])
      ⟨hfit.memory, hfit.placed⟩ hrestores hmade rfl hid rfl
    exact Eq.mp (congrArg (fun x => Creation w d b.clientId k (x, _)) hworld.symm) hcreated
  · rw [heq, updDevice_updDevice hf]
    refine .refused k.errno (w.next + 1) _ (Nat.le_succ _) hf ?_
    rw [hfd]
    exact unmade_release (b := { b with qids := ids }) k hmade hrestores

theorem Creation.unchanged (w : World) (d : Device) (connId : U64) (k : Driver) (e : Errno) :
    Creation w d connId k (w, .error e) := by
  have h := @Creation.refused w d connId k e w.next (fun x => x) (Nat.le_refl _) (fun _ => rfl)
    (.same rfl rfl rfl rfl rfl rfl rfl)
  rwa [updDevice_self] at h

/-- A refused allocation leaves the map, so storing the map back changes nothing. -/
theorem Creation.storing (w : World) (connId : U64) (k : Driver) (e : Errno)
    {map : DeviceMemoryMap} (hmap : map = d.memoryMap) :
    Creation w d connId k (w.updDevice d.id fun x => { x with memoryMap := map }, .error e) :=
  .refused e w.next (fun x => { x with memoryMap := map }) (Nat.le_refl _) (fun _ => rfl)
    (.same rfl rfl hmap rfl rfl rfl rfl)

variable {t : Handles Descriptor}

theorem bufferInit_creation {next : Nat} (w : World) (hs : d.Sound t next)
    (allocType : AllocationType) (allocDir : AllocDir) (size allocArg connId : U64)
    (mmChannel : Nat) (k : Driver) :
    Creation w d connId k (bufferInit w d allocType allocDir size allocArg connId mmChannel k) := by
  unfold bufferInit
  split
  · exact .unchanged w d connId k .einval
  cases allocDir.dirMask with
  | none => exact .unchanged w d connId k .einval
  | some dirMask =>
    rcases hres : deviceMemoryMapAllocate d.memoryMap allocType size allocArg connId with ⟨ares, map⟩
    have hfail : (∀ out, ares ≠ .success out) → map = d.memoryMap := by
      intro hno
      have hsame := Vrtd.allocate_failure (m := d.memoryMap) fun out hout =>
        hno out ((congrArg Prod.fst hres).symm.trans hout)
      rwa [hres] at hsame
    simp only []
    cases ares with
    | noMemory => exact .storing w connId k .enomem (hfail (by simp))
    | badArgument => exact .storing w connId k .einval (hfail (by simp))
    | success out =>
      obtain ⟨blk, hcls, hfirst, hcount, howner, haddr, hsize, hsound⟩ := hs.memory.allocate hres
      refine attach_creation w d dirMask mmChannel k (b := ⟨w.next, allocType, connId, out.addr,
        out.size, [], none, true⟩) (m := map) (f := fun x => { x with memoryMap := map })
        (fun _ => rfl) rfl ?_ ?_ rfl rfl
      · have hblock : Buffer.block? ⟨w.next, allocType, connId, out.addr, out.size, [], none, true⟩ =
            some blk := by
          simp only [Buffer.block?, if_true, hcls, Option.map_some]
          rw [← hfirst, ← hcount, ← howner]
        refine ⟨?_, fun _ => ⟨blk, hblock, haddr, hsize⟩⟩
        rw [hblock]
        exact hsound.perm (perm_append_singleton _ _).symm
      · exact Vrtd.free_allocate hres

theorem bufferCreate_creation {next : Nat} (w : World) (hs : d.Sound t next)
    (allocType : AllocationType) (allocDir : AllocDir) (size allocArg connId : U64)
    (mmChannel : Nat) (calloc : Bool) (k : Driver) :
    Creation w d connId k
      (bufferCreate w d allocType allocDir size allocArg connId mmChannel calloc k) := by
  unfold bufferCreate
  split
  · exact .unchanged w d connId k .enomem
  · exact bufferInit_creation w hs allocType allocDir size allocArg connId mmChannel k

theorem bufferCreateRaw_creation {next : Nat} (w : World) (hs : d.Sound t next)
    (physAddr size : U64) (allocDir : AllocDir) (connId : U64) (mmChannel : Nat) (calloc : Bool)
    (k : Driver) :
    Creation w d connId k
      (bufferCreateRaw w d physAddr size allocDir connId mmChannel calloc k) := by
  unfold bufferCreateRaw
  split
  · exact .unchanged w d connId k .einval
  cases allocDir.dirMask with
  | none => exact .unchanged w d connId k .einval
  | some dirMask =>
    simp only []
    split
    · exact .unchanged w d connId k .enomem
    · have h := attach_creation w d dirMask mmChannel k (b := ⟨w.next, .ddr, connId, physAddr,
        size, [], none, false⟩) (m := d.memoryMap) (f := fun x => x) (fun _ => rfl) rfl
        ⟨by simpa [Buffer.block?] using hs.memory, nofun⟩ rfl rfl rfl
      rwa [updDevice_self] at h

/-! ## Buffers come and go -/

variable {connId : U64}

theorem Creation.push {w' : World} (h : w.Sound) (hd : d ∈ w.devices) (hconn : σ.conn connId)
    (hc : Creation w d connId k (w', .ok b)) : Change σ w (pushBuffer w' d.id b) ∧
      ∃ d' ∈ (pushBuffer w' d.id b).devices, b ∈ d'.buffers ∧ b.clientId = connId := by
  cases hc with
  | made _ map new wish f hf hfd hfit _ hmade hclient hid hn =>
  have hs := h.devices d hd
  rw [pushBuffer, updDevice_updDevice hf]
  have hkeep : ∀ P, w.fds.Keeps P (w.fds.set (unused w.fds.numbers wish)
      ⟨w.next + 1, .transfer d.id connId b.id⟩) := fun P => Handles.keeps_set_unused P _ _ _
  have hnew : Held (w.fds.set (unused w.fds.numbers wish) ⟨w.next + 1, .transfer d.id connId b.id⟩)
      (unused w.fds.numbers wish) (.transfer d.id connId b.id) :=
    ⟨w.next + 1, by rw [Handles.get?_set, if_pos rfl]⟩
  have hold : ∀ b' ∈ d.buffers, b'.id ≠ b.id := fun b' hb' heq => by
    have hlt := hs.buffer_lt b' hb'
    rw [heq, hid] at hlt
    exact Nat.lt_irrefl _ hlt
  have hsound : Device.Sound (w.fds.set (unused w.fds.numbers wish)
      ⟨w.next + 1, .transfer d.id connId b.id⟩) (w.next + 2)
      { f d with buffers := (f d).buffers ++ [b] } := by
    rw [hfd]
    have hs' := hs.keeps (hkeep _) (Nat.le_add_right w.next 2)
    constructor
    · exact hs'.id_lt
    · intro b' hb'
      rcases mem_append.mp hb' with hb' | hb'
      · exact hs'.buffer_lt b' hb'
      · rw [mem_singleton.mp hb', hid]
        exact Nat.lt_add_of_pos_right (by decide)
    · rw [map_append, nodup_append]
      refine ⟨hs.buffer_ids, nodup_singleton _, fun x hx y hy => ?_⟩
      obtain ⟨b', hb', rfl⟩ := mem_map.mp hx
      obtain ⟨b'', hb'', rfl⟩ := mem_map.mp hy
      rw [mem_singleton.mp hb'']
      exact hold b' hb'
    · have hblocks : Device.blocks { d with
          memoryMap := map
          qpairs := new ++ d.qpairs
          buffers := d.buffers ++ [b] } = d.blocks ++ b.block?.toList := by
        simp only [Device.blocks, filterMap_append]
        cases hb : b.block? with
        | none => simp [hb]
        | some blk => simp [hb]
      rw [hblocks]
      exact hfit.memory
    · intro b' hb'
      rcases mem_append.mp hb' with hb' | hb'
      · exact hs.placed b' hb'
      · rw [mem_singleton.mp hb']
        exact hfit.placed
    · intro q hq c hc
      rcases mem_append.mp hq with hq | hq
      · refine .inr ⟨b, mem_append_right _ mem_cons_self, ?_, (hmade.new q hq).2⟩
        have howner := (hmade.new q hq).1
        rw [hc, Option.some_inj] at howner
        rw [hclient, howner]
      · refine (hs.qpairs q hq c hc).imp id ?_
        rintro ⟨b', hb', hb''⟩
        exact ⟨b', mem_append_left _ hb', hb''⟩
    · exact hs'.bars
    · intro b' hb'
      rcases mem_append.mp hb' with hb' | hb'
      · exact hs'.transfers b' hb'
      · rw [mem_singleton.mp hb', hclient]
        exact ⟨_, hn, hnew⟩
    · exact hs'.writers
  refine ⟨?_, { f d with buffers := (f d).buffers ++ [b] }, ?_, ?_, hclient⟩
  · refine Change.device h hd (fun x => hf x) (by rw [hfd]) (by rw [hfd]) (Nat.le_add_right _ _)
      hsound (fun ha => ?_) ?_ (hkeep _) (hkeep _) ?_ ?_
    · refine ha.device h hd (f := fun x => { f x with buffers := (f x).buffers ++ [b] })
        ((ha.balanced.le (Nat.le_succ w.next)).handOut (Handles.get?_unused _ wish) rfl) ?_ ?_
      · show (f d).bars.reduceOption.Nodup
        rw [hfd]
        exact ha.bars d hd
      · intro n x hx hdev
        rw [Handles.get?_set] at hx
        split at hx
        · rename_i heq
          cases hx
          refine .inl (Device.mem_slots.mpr (.inr (.inl ⟨b, ?_, by rw [hn, heq], ?_⟩)))
          · exact mem_append_right _ mem_cons_self
          · show Holder.transfer d.id connId b.id = .transfer (f d).id b.clientId b.id
            rw [hf, hclient]
        · rcases ha.owned_by h hd hx hdev with hslot | hne
          · refine .inl ?_
            show (n, x.holder) ∈ Device.slots { f d with buffers := (f d).buffers ++ [b] }
            rw [hfd]
            refine Device.mem_slots.mpr ((Device.mem_slots.mp hslot).imp id (Or.imp ?_ id))
            rintro ⟨b', hb', hfd'⟩
            exact ⟨b', mem_append_left _ hb', hfd'⟩
          · exact .inr ⟨hx, hne⟩
    · exact (h.table.le (Nat.le_succ w.next)).open _ _
    · intro n x hx
      rw [Handles.get?_set] at hx
      split at hx
      · cases hx
        exact .inr ⟨Nat.le_succ _, rfl⟩
      · exact .inl hx
    · rw [hfd]
      intro b' hb'
      rcases mem_append.mp hb' with hb' | hb'
      · exact .inl hb'
      · rw [mem_singleton.mp hb', hclient]
        exact .inr hconn
  · exact (mem_updDevice (w := w) h hd).mpr (.inl rfl)
  · exact mem_append_right _ mem_cons_self

theorem Creation.error {w' : World} {e : Errno} (hc : Creation w d connId k (w', .error e)) :
    ∃ next f, w.next ≤ next ∧
      (∀ x : Device, (f x).id = x.id) ∧ w' = { w with next := next }.updDevice d.id f ∧
      Unmade d (f d) k := by
  cases hc with
  | refused _ next f hnext hf hunmade => exact ⟨next, f, hnext, hf, rfl, hunmade⟩

/-- A buffer that the list has no room for is torn down again. -/
theorem Creation.discard {w' : World} (hc : Creation w d connId k (w', .ok b)) :
    ∃ t next l f, w.next ≤ next ∧
      (∀ x : Device, (f x).id = x.id) ∧ (∀ n, t.get? n = w.fds.get? n) ∧
      (w.Accounted → Balanced Descriptor.object t l next) ∧
      cleanupBuffer w' d.id b k =
        { w with fds := t, next := next, ledger := l }.updDevice d.id f ∧
      Unmade d (f d) k := by
  cases hc with
  | made _ map new wish f hf hfd hfit hrestores hmade hclient hid hn =>
    refine ⟨(w.fds.set (unused w.fds.numbers wish) ⟨w.next + 1, .transfer d.id connId b.id⟩).eraseAll
      [unused w.fds.numbers wish], w.next + 2, (w.ledger.handOut (w.next + 1)).giveBack
        (w.fds.set (unused w.fds.numbers wish) ⟨w.next + 1, .transfer d.id connId b.id⟩)
        [unused w.fds.numbers wish], fun x => (f x).releaseBuffer b k,
      Nat.le_add_right _ _, hf, fun n => ?_, fun ha => ?_, ?_, ?_⟩
    · rw [Handles.get?_eraseAll, Handles.get?_set]
      by_cases heq : n = unused w.fds.numbers wish
      · simp [heq, Handles.get?_unused]
      · simp [heq]
    · refine ((ha.balanced.le (Nat.le_succ w.next)).handOut (Handles.get?_unused _ wish)
        rfl).giveBack (nodup_singleton _) fun n hmem => ?_
      rw [mem_singleton.mp hmem, Handles.get?_set, if_pos rfl]
      rfl
    · simp only [cleanupBuffer, hn, Option.toList_some]
      exact updDevice_updDevice (w := { w with
        fds := (w.fds.set (unused w.fds.numbers wish)
          ⟨w.next + 1, .transfer d.id connId b.id⟩).eraseAll [unused w.fds.numbers wish]
        next := w.next + 2
        ledger := (w.ledger.handOut (w.next + 1)).giveBack
          (w.fds.set (unused w.fds.numbers wish) ⟨w.next + 1, .transfer d.id connId b.id⟩)
          [unused w.fds.numbers wish] }) hf
    · simp only [hfd]
      exact unmade_release k (hclient ▸ hmade) hrestores

/-- Closing what one holder has touches nothing of the others. -/
theorem keeps_close {ns : List Nat} {holder : Holder} (h : ∀ n ∈ ns, Held t n holder) :
    t.Keeps (fun x => x.holder ≠ holder) (t.eraseAll ns) :=
  Handles.keeps_eraseAll fun n hn _ hget hne => hne ((h n hn).holder_eq hget)

theorem Device.Sound.drop {next : Nat} (h : d.Sound t next) (hb : b ∈ d.buffers) (k : Driver) :
    Device.Sound (t.eraseAll b.fd.toList) next { d.releaseBuffer b k with
      buffers := d.buffers.filter (·.id ≠ b.id) } := by
  obtain ⟨n, hfd, hheld⟩ := h.transfers b hb
  have hkeep : t.Keeps (fun x => x.holder ≠ .transfer d.id b.clientId b.id)
      (t.eraseAll b.fd.toList) := by
    refine keeps_close fun m hm => ?_
    rw [hfd, Option.toList_some, mem_singleton] at hm
    exact hm ▸ hheld
  have hsub : ∀ b' ∈ d.buffers.filter (·.id ≠ b.id), b' ∈ d.buffers ∧ b'.id ≠ b.id :=
    fun b' hb' => by simpa using mem_filter.mp hb'
  have hperm := perm_cons_filter_key h.buffer_ids hb
  constructor
  · exact h.id_lt
  · exact fun b' hb' => h.buffer_lt b' (hsub b' hb').1
  · exact h.buffer_ids.sublist (filter_sublist.map _)
  · have hblocks : d.blocks.Perm (b.block?.toList ++
        (d.buffers.filter (·.id ≠ b.id)).filterMap Buffer.block?) := by
      refine (hperm.filterMap Buffer.block?).trans (List.Perm.of_eq ?_)
      cases hblk : b.block? <;> simp [hblk]
    show Arena.Sound ⟨if b.allocationValid then
      (deviceMemoryMapFree d.memoryMap b.allocType b.addr b.size b.clientId).2 else d.memoryMap,
      (d.buffers.filter (·.id ≠ b.id)).filterMap Buffer.block?⟩
    split
    · rename_i hvalid
      obtain ⟨blk, hblk, haddr, hsize⟩ := h.placed b hb hvalid
      rw [hblk] at hblocks
      have hcls : b.allocType.memoryClass = some blk.cls ∧ blk.owner = b.clientId := by
        rw [Buffer.block?, if_pos hvalid] at hblk
        obtain ⟨cls, hcls, rfl⟩ := Option.map_eq_some_iff.mp hblk
        exact ⟨hcls, rfl⟩
      rw [← hcls.2]
      exact h.memory.free hblocks hcls.1 haddr hsize
    · rename_i hvalid
      rw [Buffer.block?, if_neg hvalid] at hblocks
      exact h.memory.perm hblocks
  · exact fun b' hb' => h.placed b' (hsub b' hb').1
  · intro q hq c hc
    rcases mem_releaseAll (show q ∈ k.releaseAll b.qids d.qpairs from hq) with ⟨hq, hnot⟩ | ⟨href, -⟩
    · rcases h.qpairs q hq c hc with href | ⟨b', hb', hclient, hqid⟩
      · exact .inl href
      · refine .inr ⟨b', mem_filter.mpr ⟨hb', ?_⟩, hclient, hqid⟩
        refine decide_eq_true fun hid => hnot ?_
        rwa [← inj_on_of_nodup_map h.buffer_ids hb' hb hid]
    · exact .inl href
  · exact fun m hm => (h.bars m hm).keeps hkeep fun _ => nofun
  · intro b' hb'
    obtain ⟨m, hm, hheld'⟩ := h.transfers b' (hsub b' hb').1
    exact ⟨m, hm, hheld'.keeps hkeep fun _ heq => (hsub b' hb').2 (Holder.transfer.inj heq).2.2⟩
  · exact fun writer hw => ⟨(h.writers writer hw).1, fun m hm =>
      ((h.writers writer hw).2 m hm).keeps hkeep fun _ => nofun⟩

theorem dropBuffer_eq (w : World) (device : Nat) (b : Buffer) (k : Driver) :
    dropBuffer w device b k = { w with
      fds := w.fds.eraseAll b.fd.toList
      ledger := w.ledger.giveBack w.fds b.fd.toList }.updDevice device fun d => { d.releaseBuffer b k with buffers := d.buffers.filter (·.id ≠ b.id) } :=
  updDevice_updDevice (w := w.closeFds b.fd.toList) fun _ => rfl

theorem Change.drop (h : w.Sound) (hd : d ∈ w.devices) (hb : b ∈ d.buffers)
    (hshut : σ.shut (.transfer d.id b.clientId b.id)) (k : Driver) :
    Change σ w (dropBuffer w d.id b k) := by
  have hs := h.devices d hd
  obtain ⟨n, hfd, hheld⟩ := hs.transfers b hb
  have hkeep : w.fds.Keeps (fun x => x.holder ≠ .transfer d.id b.clientId b.id)
      (w.fds.eraseAll b.fd.toList) := by
    refine keeps_close fun m hm => ?_
    rw [hfd, Option.toList_some, mem_singleton] at hm
    exact hm ▸ hheld
  rw [dropBuffer_eq]
  refine Change.device h hd (fun _ => rfl) rfl rfl (Nat.le_refl _) (hs.drop hb k) (fun ha => ?_)
    (h.table.eraseAll _) (hkeep.mono ?_) (hkeep.mono ?_) ?_ ?_
  · have hclosed := ha.close_slot b.fd fun m hm => by
      rw [hfd] at hm
      cases hm
      exact hheld
    refine ha.device h hd (f := fun d => { d.releaseBuffer b k with
      buffers := d.buffers.filter (·.id ≠ b.id) }) hclosed.balanced (ha.bars d hd)
      fun m x hm hdev => ?_
    obtain ⟨hm, hnot⟩ := Handles.get?_of_eraseAll hm
    rcases ha.owned_by h hd hm hdev with hslot | hne
    · refine .inl (Device.mem_slots.mpr ((Device.mem_slots.mp hslot).imp id (Or.imp ?_ id)))
      rintro ⟨b', hb', hfd', hholder⟩
      refine ⟨b', mem_filter.mpr ⟨hb', decide_eq_true fun heq => hnot ?_⟩, hfd', hholder⟩
      rw [← inj_on_of_nodup_map hs.buffer_ids hb' hb heq, hfd']
      exact mem_cons_self
    · exact .inr ⟨hm, hne⟩
  · rintro x hx heq
    exact hx (heq ▸ hshut)
  · rintro x hx heq
    exact hx (by rw [heq]; rfl)
  · exact fun m x hm => .inl (Handles.get?_of_eraseAll hm).1
  · exact fun b' hb' => .inl (mem_filter.mp hb').1

theorem mem_dropBuffer (h : w.Sound) {d x : Device} (hd : d ∈ w.devices) {b b' : Buffer}
    (k : Driver) (hx : x ∈ (dropBuffer w d.id b k).devices) (hb' : b' ∈ x.buffers) :
    ∃ y ∈ w.devices, y.id = x.id ∧ b' ∈ y.buffers ∧ (y.id = d.id → b'.id ≠ b.id) := by
  rw [dropBuffer_eq] at hx
  rcases (mem_updDevice (w := w) h hd).mp hx with rfl | ⟨hx, hid⟩
  · obtain ⟨hb', hne⟩ := mem_filter.mp hb'
    exact ⟨d, hd, rfl, hb', fun _ => by simpa using hne⟩
  · exact ⟨x, hx, rfl, hb', fun heq => absurd heq hid⟩

/-- The buffers of one connection on one device go. -/
theorem Change.dropAll (h : w.Sound) (hd : d ∈ w.devices) (k : Driver)
    (hshut : ∀ id, σ.shut (.transfer d.id connId id)) {bs : List Buffer}
    (hbs : ∀ b ∈ bs, b ∈ d.buffers ∧ b.clientId = connId) (hnodup : (bs.map (·.id)).Nodup) :
    Change σ w (bs.foldl (fun w b => dropBuffer w d.id b k) w) ∧
      ∀ x ∈ (bs.foldl (fun w b => dropBuffer w d.id b k) w).devices, ∀ b' ∈ x.buffers,
        ∃ y ∈ w.devices, y.id = x.id ∧ b' ∈ y.buffers ∧
          (y.id = d.id → ∀ b ∈ bs, b'.id ≠ b.id) := by
  induction bs generalizing w d with
  | nil => exact ⟨.refl h, fun x hx b' hb' => ⟨x, hx, rfl, hb', fun _ _ hb => nomatch hb⟩⟩
  | cons b bs ih =>
    obtain ⟨hb, hclient⟩ := hbs b mem_cons_self
    obtain ⟨hfresh, hnodup⟩ := nodup_cons.mp hnodup
    have hfirst := Change.drop h hd hb (hclient ▸ hshut b.id) k
    -- the device after the first removal still has the others
    have hd' : { d.releaseBuffer b k with buffers := d.buffers.filter (·.id ≠ b.id) } ∈
        (dropBuffer w d.id b k).devices := by
      rw [dropBuffer_eq]
      exact (mem_updDevice (w := w) h hd).mpr (.inl rfl)
    have hrest : ∀ b' ∈ bs, b' ∈ d.buffers.filter (·.id ≠ b.id) ∧ b'.clientId = connId := by
      intro b' hb'
      obtain ⟨hmem, hc⟩ := hbs b' (mem_cons_of_mem _ hb')
      refine ⟨mem_filter.mpr ⟨hmem, decide_eq_true fun heq => hfresh ?_⟩, hc⟩
      exact mem_map.mpr ⟨b', hb', heq⟩
    obtain ⟨hchange, hleft⟩ := ih hfirst.sound hd' hshut hrest hnodup
    refine ⟨hfirst.trans hchange, fun x hx b' hb' => ?_⟩
    obtain ⟨y, hy, hyx, hby, hne⟩ := hleft x hx b' hb'
    obtain ⟨z, hz, hzy, hbz, hne'⟩ := mem_dropBuffer h hd k hy hby
    refine ⟨z, hz, hzy.trans hyx, hbz, fun hzd b'' hb'' => ?_⟩
    rcases mem_cons.mp hb'' with rfl | hb''
    · exact hne' hzd
    · exact hne (hzy.symm.trans hzd) b'' hb''

theorem mem_dropAll_of_ne {device : Nat} {x : Device} (k : Driver) {bs : List Buffer}
    (hx : x ∈ w.devices) (hne : x.id ≠ device) :
    x ∈ (bs.foldl (fun w b => dropBuffer w device b k) w).devices := by
  induction bs generalizing w with
  | nil => exact hx
  | cons b bs ih =>
    refine ih (w := dropBuffer w device b k) ?_
    rw [dropBuffer_eq]
    exact mem_map.mpr ⟨x, hx, if_neg hne⟩

theorem cleanup_devices (k : Driver) (hshut : ∀ d id, σ.shut (.transfer d connId id))
    {ds : List Device} (h : w.Sound) (hds : ∀ d ∈ ds, d ∈ w.devices)
    (hnodup : (ds.map (·.id)).Nodup) :
    Change σ w (ds.foldl (fun w d => (d.buffers.filter (·.clientId = connId)).foldl
        (fun w b => dropBuffer w d.id b k) w) w) ∧
      ∀ x ∈ (ds.foldl (fun w d => (d.buffers.filter (·.clientId = connId)).foldl
          (fun w b => dropBuffer w d.id b k) w) w).devices, ∀ b ∈ x.buffers,
        ∃ y ∈ w.devices, y.id = x.id ∧ b ∈ y.buffers ∧
          (y.id ∈ ds.map (·.id) → b.clientId ≠ connId) := by
  induction ds generalizing w with
  | nil => exact ⟨.refl h, fun x hx b hb => ⟨x, hx, rfl, hb, fun hmem => nomatch hmem⟩⟩
  | cons d ds ih =>
    have hd := hds d mem_cons_self
    obtain ⟨hfresh, hnodup⟩ := nodup_cons.mp hnodup
    have hbs : ∀ b ∈ d.buffers.filter (·.clientId = connId), b ∈ d.buffers ∧ b.clientId = connId :=
      fun b hb => by simpa using mem_filter.mp hb
    have hids : ((d.buffers.filter (·.clientId = connId)).map (·.id)).Nodup :=
      (h.devices d hd).buffer_ids.sublist (filter_sublist.map _)
    obtain ⟨hfirst, hleft⟩ := Change.dropAll (σ := σ) h hd k (hshut d.id) hbs hids
    have hds' : ∀ d' ∈ ds, d' ∈ ((d.buffers.filter (·.clientId = connId)).foldl
        (fun w b => dropBuffer w d.id b k) w).devices := fun d' hd' =>
      mem_dropAll_of_ne k (hds d' (mem_cons_of_mem _ hd')) fun heq =>
        hfresh (mem_map.mpr ⟨d', hd', heq⟩)
    obtain ⟨hrest, hleft'⟩ := ih hfirst.sound hds' hnodup
    refine ⟨hfirst.trans hrest, fun x hx b hb => ?_⟩
    obtain ⟨y, hy, hyx, hby, hne⟩ := hleft' x hx b hb
    obtain ⟨z, hz, hzy, hbz, hne'⟩ := hleft y hy b hby
    refine ⟨z, hz, hzy.trans hyx, hbz, fun hmem => ?_⟩
    rcases mem_cons.mp hmem with heq | hmem
    · intro hclient
      have hzd := h.eq_of_id hz hd heq
      subst hzd
      exact hne' rfl b (mem_filter.mpr ⟨hbz, decide_eq_true hclient⟩) rfl
    · exact hne (hzy ▸ hmem)

theorem cleanupBuffersForConnId_change (h : w.Sound) (k : Driver)
    (hshut : ∀ d id, σ.shut (.transfer d connId id)) :
    Change σ w (cleanupBuffersForConnId w connId k) ∧
      ∀ x ∈ (cleanupBuffersForConnId w connId k).devices, ∀ b ∈ x.buffers,
        (∃ y ∈ w.devices, y.id = x.id ∧ b ∈ y.buffers) ∧ (connId ≠ 0 → b.clientId ≠ connId) := by
  unfold cleanupBuffersForConnId
  split
  · exact ⟨.refl h, fun x hx b hb => ⟨⟨x, hx, rfl, hb⟩, fun hne => absurd (by assumption) hne⟩⟩
  · obtain ⟨hchange, hleft⟩ := cleanup_devices (σ := σ) k hshut h (fun d hd => hd) h.ids
    refine ⟨hchange, fun x hx b hb => ?_⟩
    obtain ⟨y, hy, hyx, hby, hne⟩ := hleft x hx b hb
    exact ⟨⟨y, hy, hyx, hby⟩, fun _ => hne (mem_map.mpr ⟨y, hy, rfl⟩)⟩

end Slash.Daemon
