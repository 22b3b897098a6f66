import Slash.Daemon.Attribution

/-!
# Design writes over whole runs

Every act keeps the three histories together: a request moves what is not its own as it is, a
submission goes to a writer that nobody waits for, a removal takes no device with a transfer under
way or a result to collect. And the timer leaves nobody waiting for a transfer that is over.
-/

namespace Slash.Daemon

open Lib List
open Libvrtd (Ret)
open Vrtd (U64)

/-- Where a design write may be submitted: devices at the address of the numbered one whose writer
is free. -/
def Message.targets (devices : List Device) (m : Message) : List Nat :=
  match m.request with
  | .designWrite dev _ =>
    match devices[dev]? with
    | some d => (devices.filter fun x => x.bdf = d.bdf ∧ x.writerBusy = false).map (·.id)
    | none => []
  | _ => []

/-- Nothing is submitted to a writer whose last result was not collected, and no device is removed
whose writer is busy or that somebody waits for. -/
def Note.SparesWrites : Note → Prop
  | .dispatched snap _ inFd m =>
    (∀ id ∈ m.targets snap.devices, id ∉ snap.pending) ∧
      ∀ id ∈ m.removes snap.devices inFd, id ∉ snap.pending ∧
        ∀ d ∈ snap.devices, d.id = id → d.writerBusy = false
  | _ => True

instance Note.decidableSparesWrites : DecidablePred Note.SparesWrites
  | .dispatched snap _ inFd m =>
    inferInstanceAs (Decidable ((∀ id ∈ m.targets snap.devices, id ∉ snap.pending) ∧
      ∀ id ∈ m.removes snap.devices inFd, id ∉ snap.pending ∧
        ∀ d ∈ snap.devices, d.id = id → d.writerBusy = false))
  | .connected .. | .finalising .. | .removing .. | .submitted .. | .transferred .. | .answered ..
  | .passed .. => isTrue trivial

theorem Message.mem_targets {devices : List Device} {m : Message} {dev : Nat} {shell : ShellType}
    {d₀ d : Device} (hrequest : m.request = .designWrite dev shell)
    (hdev : devices[dev]? = some d₀) (hd : d ∈ devices) (hbdf : d.bdf = d₀.bdf)
    (hidle : d.writerBusy = false) : d.id ∈ m.targets devices := by
  rw [Message.targets, hrequest]
  simp only [hdev]
  exact mem_map_of_mem (mem_filter.mpr ⟨hd, by simp [hbdf, hidle]⟩)

theorem Attribution.pending_lt {s : State} (hs : s.Sound) (h : Attribution s) {device : Nat}
    (hmem : device ∈ (snapshot s.world s.clients).pending) : device < s.world.next := by
  obtain ⟨c, hc, hmap⟩ := mem_filterMap.mp hmem
  obtain ⟨p, hp, rfl⟩ := Option.map_eq_some_iff.mp hmap
  have hdevice : ∃ writer, Writing s.world p.device writer := by
    rcases (h.waits c hc p hp).slot with ⟨fd, error, hwriting, -⟩ | ⟨error, -, hwriting⟩
    · exact ⟨_, hwriting⟩
    · exact ⟨_, hwriting⟩
  obtain ⟨writer, d, hd, hid, -⟩ := hdevice
  exact hid ▸ (hs.world.devices d hd).id_lt

section Acts

variable {w w' : World} {before rest : List Client} {c c' : Client} {n : U64}

theorem Attribution.dispatch {m : Message} {r : World × Client}
    (hs : State.Sound ⟨w, before ++ c :: rest, n⟩) (h : Attribution ⟨w, before ++ c :: rest, n⟩)
    (hd : Dispatched w (snapshot w (before ++ c :: rest)) c m r)
    (hspares : Note.SparesWrites (.dispatched (snapshot w (before ++ c :: rest)) c.id c.inFd m)) :
    Attribution ⟨r.1, before ++ r.2 :: rest, n⟩ := by
  have hc := hs.here
  have hslots : ∀ {c' : Client}, c'.id = c.id → c'.pendingDesignWrite = c.pendingDesignWrite →
      writeSlots (before ++ c' :: rest) = writeSlots (before ++ c :: rest) := by
    intro c' hid hpending
    simp only [writeSlots, map_append, map_cons, hid, hpending]
  have hcarries : ∀ {w₁ : World}, Change (m.scope w.devices c.connId c.inFd)
      (w.note (.dispatched (snapshot w (before ++ c :: rest)) c.id c.inFd m)) w₁ →
      Carries (· ∈ (snapshot w (before ++ c :: rest)).pending) w w₁ := by
    intro w₁ hchange
    refine (hchange.carries (hs.world.note _) (fun d hd hbusy hgone => ?_)
      (fun device hdevice hgone => (hspares.2 device hgone).1 hdevice) fun device hshut => ?_).congr
        rfl rfl
    · rw [(hspares.2 d.id hgone).2 d hd rfl] at hbusy
      cases hbusy
    · rcases hshut with ⟨id, hid, hdevice⟩ | ⟨_, _, hholder⟩
      · cases hdevice
        exact hid
      · cases hholder
  have hclient : ∀ {w₁ : World}, Change (m.scope w.devices c.connId c.inFd)
      (w.note (.dispatched (snapshot w (before ++ c :: rest)) c.id c.inFd m)) w₁ →
      c.Sound w₁ := fun hchange => (hc.note _).change (Message.scope_devices _ _ _ _) hchange
  have hemployed : ∀ {inputFd : Option Nat} (hinput : inputFd = none ∨ inputFd = c.inFd)
      (worker : FlashWorker), Carries (· ∈ (snapshot w (before ++ c :: rest)).pending) w
        ((w.note (.dispatched (snapshot w (before ++ c :: rest)) c.id c.inFd m)).employed worker
          inputFd) := by
    intro inputFd hinput worker
    refine .table hs.world (by rw [employed_eq]; rfl) (by rw [employed_eq]; exact Nat.le_refl _)
      ((hc.employed_keeps hinput _ worker).mono fun d hd heq => ?_) fun k d hk => .inr ⟨k, ?_⟩
    · obtain ⟨device, hdevice⟩ := hd
      rw [hdevice] at heq
      cases heq
    · exact employed_objects ((hc.note _).input hinput) worker hk
  cases hd with
  | taken _ => exact h.carry rfl (.refl rfl rfl rfl) ((SameWrites.refl _).cons trivial)
  | answered w₁ ret fd hpending hchange _ =>
    have hclose : Carries (· ∈ (snapshot w (before ++ c :: rest)).pending) w₁
        (w₁.closeFds c.inFd.toList) := .close hchange.sound fun k hk =>
      ⟨_, (hclient hchange).inbound k (Option.mem_toList.mp hk), fun _ h => by cases h⟩
    refine h.carry (hslots rfl rfl) ((hcarries hchange).trans hclose) ?_
    show SameWrites w.log w₁.log
    rw [hchange.log]
    exact (SameWrites.refl _).cons trivial
  | writing w₁ d writer fd hpending hchange htarget hwriter hbusy hinput hfd _ =>
    have hsame : SameWrites w.log w₁.log := by
      rw [hchange.log]
      exact (SameWrites.refl _).cons trivial
    have hmoved : Attribution ⟨w₁, before ++ c :: rest, n⟩ := h.carry rfl (hcarries hchange) hsame
    refine hmoved.submit hchange.sound htarget.1 hwriter hbusy ((hclient hchange).inbound fd hfd)
      (hclient hchange).id_lt (fun x hx => (hs.others hx).2) hpending ?_ rfl rfl
    -- whatever device it is, nobody waits for it
    intro hmem
    obtain ⟨hd, dev, shell, d₀, hrequest, hdev, hbdf⟩ := htarget
    rcases hchange.came d hd with ⟨d₁, hd₁, hid, hbdf₁, hwriter₁⟩ | ⟨hle, -⟩
    · refine hspares.1 d.id (hid ▸ Message.mem_targets hrequest hdev hd₁ (hbdf₁.trans hbdf) ?_) hmem
      rw [Device.writerBusy, hwriter₁, hwriter, Option.any_some, hbusy]
    · exact Nat.not_le_of_lt (h.pending_lt hs hmem) hle
  | waiting d partition inputFd worker hpending _ _ _ hinput _ =>
    refine h.carry (hslots rfl rfl) (hemployed hinput worker) ?_
    rw [employed_eq]
    exact (SameWrites.refl _).cons trivial
  | started d partition inputFd worker hpending _ _ hinput hsubmit =>
    refine h.carry (hslots rfl rfl) ((hemployed hinput worker).trans (.close ?_ fun k hk =>
      ⟨_, hc.left hinput _ worker k (Option.mem_toList.mp hk), fun _ h => by cases h⟩)) ?_
    · exact (hs.world.note _).employed hsubmit ((hc.note _).input hinput)
    · rw [employed_eq]
      exact (SameWrites.refl _).cons trivial

theorem Attribution.client {δ : Demands} {r : World × Client}
    (hs : State.Sound ⟨w, before ++ c :: rest, n⟩) (h : Attribution ⟨w, before ++ c :: rest, n⟩)
    (ha : ClientAct δ w (snapshot w (before ++ c :: rest)) c r)
    (hlog : ∀ x ∈ r.1.log, x.SparesWrites) : Attribution ⟨r.1, before ++ r.2 :: rest, n⟩ := by
  have hslots : ∀ {c' : Client}, c'.id = c.id → c'.pendingDesignWrite = c.pendingDesignWrite →
      writeSlots (before ++ c' :: rest) = writeSlots (before ++ c :: rest) := by
    intro c' hid hpending
    simp only [writeSlots, map_append, map_cons, hid, hpending]
  cases ha with
  | receive recv ok _ _ hr =>
    refine h.carry (hslots (by rw [hr.client]) (by rw [hr.client])) (.table hs.world
      (by rw [hr.rest]) hr.next_le ((hr.keeps_of hs.here.inbound).mono fun d hd heq => ?_)
      fun k d hk => (hr.objects k d hk).imp (fun hle => hle) fun hget => ⟨k, hget⟩) ?_
    · obtain ⟨device, hdevice⟩ := hd
      rw [hdevice] at heq
      cases heq
    · rw [hr.rest]
      exact .refl _
  | dispatch m _ _ _ _ hd => exact h.dispatch hs hd (hlog _ hd.noted.2)
  | send hsend =>
    obtain ⟨⟨log, rfl, hsent⟩, response, hresponse, rfl⟩ := hsend
    refine h.carry (hslots rfl rfl) (.refl rfl rfl rfl) ?_
    rcases hsent with ⟨rfl, -⟩ | ⟨r, m, -, -, rfl⟩
    · exact .refl _
    · exact (SameWrites.refl _).cons trivial
  | slots wanted armed enabled _ => exact h.carry (hslots rfl rfl) (.refl rfl rfl rfl) (.refl _)
  | finalise _ hf => exact h.finalise hs hf

/-- A client that leaves gets no answer; what it submitted is transferred all the same. -/
theorem Attribution.remove (h : Attribution ⟨w, before ++ c :: rest, n⟩) :
    Attribution ⟨w, before ++ rest, n⟩ where
  files := h.files
  known := h.known
  transfer := h.transfer
  flight := h.flight
  outcome := h.outcome
  answer := h.answer
  response := fun u hu x hx => h.response u hu x (mem_others hx)
  waits := fun x hx => h.waits x (mem_others hx)
  apart := h.apart.sublist (((sublist_cons_self c rest).append_left before).filterMap _)

theorem Attribution.drop {push : Bool} (hs : State.Sound ⟨w, before ++ c :: rest, n⟩)
    (h : Attribution ⟨w, before ++ c :: rest, n⟩) (hcleaned : Cleaned w c push w') :
    Attribution ⟨w'.closeFds (c.inFd.toList ++ [c.fd]), before ++ rest, n⟩ := by
  have hc := hcleaned.client hs.here
  have hclose : ∀ {awaited : Nat → Prop}, w'.Sound →
      Carries awaited w' (w'.closeFds (c.inFd.toList ++ [c.fd])) := fun hw => .close hw fun k hk => by
    obtain ⟨holder, hheld, rfl | rfl⟩ := hc.leave k hk
    · exact ⟨_, hheld, fun _ => nofun⟩
    · exact ⟨_, hheld, fun _ => nofun⟩
  refine Attribution.remove (c := c) ?_
  cases hcleaned with
  | deferred ids _ _ _ _ =>
    refine h.carry rfl ((hclose ?_).congr rfl rfl) (.refl _)
    exact ⟨hs.world.ids, hs.world.devices, hs.world.worker, hs.world.table⟩
  | atOnce _ _ hchange _ =>
    have hcarries : Carries (· ∈ (snapshot w (before ++ c :: rest)).pending) w w' :=
      hchange.carries hs.world (fun _ _ _ hgone => hgone) (fun _ _ hgone => hgone) (by
        rintro device ⟨_, _, _, -, hholder⟩
        cases hholder)
    refine h.carry rfl (hcarries.trans (hclose hchange.sound)) ?_
    show SameWrites w.log w'.log
    rw [hchange.log]
    exact .refl _

theorem Attribution.collect {clients : List Client} (hs : State.Sound ⟨w, clients, n⟩)
    (h : Attribution ⟨w, clients, n⟩) (hd : Drained { w with asyncInProgress := false } w') :
    Attribution ⟨w', clients.map fun c =>
      if c.pendingAsyncOp then clientDeliverAsyncDeviceOpResult w.worker.result c else c, n⟩ := by
  obtain ⟨hchange, -, -⟩ := hd
  have hcarries : Carries (· ∈ (snapshot w clients).pending) { w with asyncInProgress := false }
      { w' with deferred := w.deferred } :=
    hchange.carries ⟨hs.world.ids, hs.world.devices, hs.world.worker, hs.world.table⟩
      (fun _ _ _ hgone => hgone) (fun _ _ hgone => hgone) (by
        rintro device ⟨_, _, _, -, hholder⟩
        cases hholder)
  refine h.carry ?_ (hcarries.congr rfl rfl) ?_
  · rw [writeSlots, map_map]
    refine map_congr_left fun c _ => ?_
    have halike := delivered_alike w.worker.result c
    exact Prod.ext halike.id halike.pendingDesignWrite
  · rw [show w'.log = w.log from hchange.log]
    exact .refl _

end Acts

theorem Attribution.accept {s : State} (hs : s.Sound) (h : Attribution s) (fd : Nat) :
    Attribution (acceptClient s fd) := by
  have ho := openFds_opens { s.world with next := s.world.next + 1 } (.socket s.world.next) [some fd]
  have hcarries : Carries (· ∈ (snapshot s.world s.clients).pending) s.world
      (acceptClient s fd).world := by
    refine .table hs.world rfl (Nat.le_add_right _ 2) (ho.keeps _) fun k d hk => ?_
    rcases ho.opened k d hk with hk | ⟨hle, -, -⟩
    · exact .inr ⟨k, d, hk, rfl⟩
    · exact .inl (Nat.le_trans (Nat.le_succ _) hle)
  have hmoved : Attribution ⟨(acceptClient s fd).world, s.clients, s.nextConnId⟩ :=
    h.carry rfl hcarries ((SameWrites.refl _).cons trivial)
  refine ⟨hmoved.files, hmoved.known, hmoved.transfer, hmoved.flight, hmoved.outcome,
    hmoved.answer, fun u hu c hc hid => ?_, fun c hc p hp => ?_, ?_⟩
  · rcases mem_append.mp hc with hc | hc
    · exact hmoved.response u hu c hc hid
    · -- the new client has an identity of its own
      rw [mem_singleton.mp hc] at hid
      exact absurd (show s.world.next = u.client from hid) (Nat.ne_of_gt (h.known u hu).1)
  · rcases mem_append.mp hc with hc | hc
    · exact hmoved.waits c hc p hp
    · rw [mem_singleton.mp hc] at hp
      cases hp
  · have happend : (snapshot (acceptClient s fd).world (acceptClient s fd).clients).pending =
        (snapshot s.world s.clients).pending := by
      show List.filterMap _ (s.clients ++ [_]) = _
      rw [filterMap_append, show List.filterMap _ [_] = [] from rfl, append_nil]
      rfl
    rw [happend]
    exact h.apart

theorem Attribution.work {w w' : World} {clients : List Client} {n : U64} {snap : Snapshot}
    (hs : State.Sound ⟨w, clients, n⟩) (h : Attribution ⟨w, clients, n⟩) (hw : Worked w snap w') :
    Attribution ⟨w', clients, n⟩ := by
  -- while the worker has a job no writer is busy and nobody waits for one
  have hquiet : ∀ {j : Job}, w.worker.job = some j →
      (∀ d ∈ w.devices, d.writerBusy = false) ∧
        ∀ device, device ∉ (snapshot w clients).pending := by
    intro j hj
    refine ⟨hs.idle (hs.running hj), fun device hmem => ?_⟩
    obtain ⟨c, hc, hp⟩ := mem_filterMap.mp hmem
    rw [hs.nobody_writes (hs.running hj) hc] at hp
    cases hp
  cases hw with
  | idle => exact h
  | removed j w₁ hj hchange =>
    have hcarries : Carries (· ∈ (snapshot w clients).pending) w w₁ := by
      refine (hchange.carries (hs.world.note _) (fun d hd hbusy => ?_)
        (fun device hmem => absurd hmem ((hquiet hj).2 device)) fun device hshut => ?_).congr rfl rfl
      · rw [(hquiet hj).1 d hd] at hbusy
        cases hbusy
      · exact Option.some_inj.mp hshut
    refine h.carry rfl (hcarries.congr rfl rfl) ?_
    show SameWrites w.log w₁.log
    rw [hchange.log]
    exact (SameWrites.refl _).cons trivial
  | discovered j w₁ ret _ hchange =>
    have hcarries : Carries (· ∈ (snapshot w clients).pending) w w₁ :=
      hchange.carries hs.world (fun _ _ _ hgone => hgone) (fun _ _ hgone => hgone)
        fun _ hshut => hshut
    refine h.carry rfl (hcarries.congr rfl rfl) ?_
    show SameWrites w.log w₁.log
    rw [hchange.log]
    exact .refl _
  | finished j result hj =>
    have hclose : Carries (· ∈ (snapshot w clients).pending) w (w.closeFds j.inputFd.toList) :=
      .close hs.world fun k hk =>
        ⟨_, hs.world.worker j hj k (Option.mem_toList.mp hk), fun _ => nofun⟩
    exact h.carry rfl (hclose.congr rfl rfl) (.refl _)

theorem Attribution.act {δ : Demands} {s s' : State} (hs : s.Sound) (ha : Act δ s s')
    (hlog : ∀ x ∈ s'.world.log, x.SparesWrites) (h : Attribution s) : Attribution s' := by
  cases ha with
  | client ha => exact h.client hs ha hlog
  | accept s fd => exact h.accept hs fd
  | drop push _ hcleaned => exact h.drop hs hcleaned
  | collect _ _ hd => exact h.collect hs hd
  | transfer device error ht =>
    cases ht with
    | idle => exact h
    | done d fd object lastError hd hid hwriter hget =>
      subst hid
      exact h.published error hs.world hd hwriter hget
  | work hw => exact h.work hs hw

theorem boot_attribution (found : Discovery) : Attribution (boot found) := by
  have hlog : (boot found).world.log = [] := (boot_change found).log
  have hidle : ∀ object device, ¬ InFlight (boot found).world object device := by
    rintro object device ⟨fd, error, ⟨d, hd, -, hwriter⟩, -⟩
    rcases (boot_change found).came d hd with ⟨_, hd', -⟩ | ⟨-, hnew⟩
    · cases hd'
    · cases hnew _ hwriter
  have hnone : ∀ u, u ∉ submissions (boot found).world.log := by
    rw [hlog]
    exact nofun
  exact {
    files := by rw [hlog]; exact nodup_nil
    known := fun u hu => absurd hu (hnone u)
    transfer := fun u hu => absurd hu (hnone u)
    flight := fun object device hfly => absurd hfly (hidle object device)
    outcome := fun object hne => by
      rw [hlog] at hne
      exact absurd rfl hne
    answer := fun object x hx => by
      rw [hlog] at hx
      cases hx
    response := fun u hu => absurd hu (hnone u)
    waits := fun c hc => absurd hc not_mem_nil
    apart := nodup_nil }

/-! ## The timer collects -/

def Collected (w : World) (c : Client) : Prop :=
  ∀ p, c.pendingDesignWrite = some p → InFlight w p.object p.device

theorem Collected.carry {awaited : Nat → Prop} {w w' : World} {c : Client} (h : Collected w c)
    (hcarries : Carries awaited w w') : Collected w' c :=
  fun p hp => (hcarries.flight _ _).mpr (h p hp)

/-- After its turn a client does not wait for a result that is there. -/
theorem Attribution.turn {w : World} {before rest : List Client} {c : Client} {n : U64}
    {r : World × Client} (hs : State.Sound ⟨w, before ++ c :: rest, n⟩)
    (h : Attribution ⟨w, before ++ c :: rest, n⟩)
    (hf : Finalised w (snapshot w (before ++ c :: rest)) c r) :
    Collected r.1 r.2 ∧ ∀ x, Collected w x → Collected r.1 x := by
  cases hf with
  | idle hbusy =>
    refine ⟨fun p hp => ?_, fun x hx => hx⟩
    rcases (h.waits c (mem_append_right _ mem_cons_self) p hp).slot with
      hfly | ⟨error, -, d, hd, hid, hwriter⟩
    · exact hfly
    · cases hbusy p hp d _ (hid ▸ hs.world.device? hd) hwriter
  | done p w' error ret _ _ _ hchange =>
    refine ⟨fun p' hp' => ?_, fun x hx => ?_⟩
    · rw [Client.finalised, clientUpdateWanted_eq] at hp'
      cases hp'
    · have hcarries : Carries (fun _ => False) w w' :=
        (hchange.carries (hs.world.note _) (fun _ _ _ hgone => hgone) (fun _ h => h.elim)
          (fun _ h => by cases h)).congr rfl rfl
      exact hx.carry (hcarries.congr rfl rfl)

theorem finalizeAll_collected {a : Nat → FinalAnswers} {n : U64} (clients : List Client) :
    ∀ {w : World} {before : List Client}, State.Sound ⟨w, before ++ clients, n⟩ →
    Attribution ⟨w, before ++ clients, n⟩ → w.asyncInProgress = false →
    (∀ c ∈ before, Collected w c) →
    ∀ c ∈ (finalizeAll w a before clients).2, Collected (finalizeAll w a before clients).1 c := by
  induction clients with
  | nil => exact fun _ _ _ hbefore => hbefore
  | cons c rest ih =>
    intro w before hs h hidle hbefore
    have hf := finalize_finalised hs.world (snapshot w (before ++ c :: rest)) c (a c.id)
    unfold finalizeAll
    simp only []
    generalize clientFinalizePendingDesignWrite w (snapshot w (before ++ c :: rest)) c (a c.id) = r
      at hf
    obtain ⟨hown, hothers⟩ := h.turn hs hf
    have hs' := hs.finalise hidle hf
    have h' := h.finalise hs hf
    rw [append_cons] at hs' h'
    refine ih hs' h' (hf.async.trans hidle) fun x hx => ?_
    rcases mem_append.mp hx with hx | hx
    · exact hothers x (hbefore x hx)
    · rw [mem_singleton.mp hx]
      exact hown

theorem step_timer_idle {s : State} (hidle : s.world.asyncInProgress = false) (a : TimerAnswers) :
    step s (.timer a) = { s with
      world := (finalizeAll s.world a.final [] s.clients).1
      clients := (finalizeAll s.world a.final [] s.clients).2 } := by
  show onEventDeferredWork s a = _
  unfold onEventDeferredWork
  rw [if_neg (by rw [hidle]; exact Bool.false_ne_true)]

/-! ## The property -/

/-- What the history says of the design writes of a state, and what the next tick of the timer does
for those who wait. -/
structure Attributed (s : State) : Prop where
  /-- No file is submitted twice. -/
  files : ((submissions s.world.log).map (·.object)).Nodup
  /-- Each submitted file is in flight or was consumed by one transfer. -/
  transferred : ∀ u ∈ submissions s.world.log,
    outcomes s.world.log u.object = [] ∧ InFlight s.world u.object u.device ∨
    ∃ error, outcomes s.world.log u.object = [error]
  /-- Each submission of a connected client is waited for or was answered once. -/
  answered : ∀ u ∈ submissions s.world.log, ∀ c ∈ s.clients, c.id = u.client →
    answers s.world.log u.object = [] ∧ c.pendingDesignWrite = some ⟨u.device, u.object⟩ ∨
    ∃ error ret, answers s.world.log u.object = [(u.client, error, ret)]
  /-- Each answer is for a submission of that client and reports how its transfer ended. -/
  reported : ∀ object, ∀ x ∈ answers s.world.log object,
    (∃ u ∈ submissions s.world.log, u.object = object ∧ u.client = x.1) ∧
      outcomes s.world.log object = [x.2.1] ∧ (x.2.1 ≠ 0 → x.2.2 = .internalError)
  /-- After a tick nobody waits for a transfer that is over. -/
  collected : s.world.asyncInProgress = false → ∀ a, ∀ c ∈ (step s (.timer a)).clients,
    Collected (step s (.timer a)).world c

theorem Attribution.attributed {s : State} (hs : s.Sound) (h : Attribution s) : Attributed s where
  files := h.files
  transferred := fun u hu => (h.transfer u hu).imp (fun hfly => hfly) fun hdone => hdone.1
  answered := fun u hu c hc hid => by
    rcases h.response u hu c hc hid with hp | hanswered
    · exact .inl ⟨(h.waits c hc _ hp).unanswered, hp⟩
    · exact .inr hanswered
  reported := h.answer
  collected := fun hidle a => by
    rw [step_timer_idle hidle]
    exact finalizeAll_collected s.clients hs h hidle fun _ hc => absurd hc not_mem_nil

/-- Two clients write designs to the board one after the other; the first transfer fails, the
second does not, and the timer comes only then. -/
def overwrittenResult : List Event :=
  [.accept 3, .accept 4, writeDesign 1, .transferDone 6 5, writeDesign 3, .transferDone 6 0,
    .timer {}]

/-- The same with a tick of the timer after each transfer. -/
def collectedResults : List Event :=
  [.accept 3, .accept 4, writeDesign 1, .transferDone 6 5, .timer {}, writeDesign 3,
    .transferDone 6 0, .timer {}]

end Slash.Daemon
