import Slash.Daemon.BufferChanges

/-!
# Devices come and go

Removal, rediscovery and reset of devices, the descriptor that is handed out for a queue pair, and
the refresh of the BAR files after a design write.
-/

namespace Slash.Daemon

open Lib List
open Libvrtd (Ret)
open Vrtd

variable {σ τ : Scope} {w w' w'' : World}

/-! ## Devices come and go -/

/-- What opening a list of files does to the table. -/
structure Opens (w w' : World) (holder : Holder) (ns : List (Option Nat)) : Prop where
  rest : w' = { w with fds := w'.fds, next := w'.next, ledger := w'.ledger }
  keeps : ∀ P, w.fds.Keeps P w'.fds
  next_le : w.next ≤ w'.next
  balanced : Balanced Descriptor.object w.fds w.ledger w.next →
    Balanced Descriptor.object w'.fds w'.ledger w'.next
  table : Table w.fds w.next → Table w'.fds w'.next
  held : ∀ n, some n ∈ ns → Held w'.fds n holder
  opened : ∀ n x, w'.fds.get? n = some x →
    w.fds.get? n = some x ∨ w.next ≤ x.object ∧ x.holder = holder ∧ some n ∈ ns

theorem openFds_opens (w : World) (holder : Holder) (wishes : List (Option Nat)) :
    Opens w (w.openFds holder wishes).2 holder (w.openFds holder wishes).1 := by
  induction wishes generalizing w with
  | nil => exact ⟨rfl, fun P => .refl P _, Nat.le_refl _, id, id, nofun, fun _ _ h => .inl h⟩
  | cons wish wishes ih =>
    cases wish with
    | none =>
      have h := ih w
      refine ⟨h.rest, h.keeps, h.next_le, h.balanced, h.table, fun n hn => ?_, fun n x hx => ?_⟩
      · rcases mem_cons.mp hn with heq | hn
        · cases heq
        · exact h.held n hn
      · exact (h.opened n x hx).imp id fun ⟨hle, heq, hmem⟩ =>
          ⟨hle, heq, mem_cons_of_mem _ hmem⟩
    | some wish =>
      have h := ih (w.openFd wish holder).2
      have hkeep : ∀ P, w.fds.Keeps P (w.openFd wish holder).2.fds := fun P =>
        Handles.keeps_set_unused P _ _ _
      have hself : Held (w.openFd wish holder).2.fds (unused w.fds.numbers wish) holder :=
        ⟨w.next, by
          show (w.fds.set _ _).get? _ = _
          rw [Handles.get?_set, if_pos rfl]⟩
      refine ⟨h.rest, fun P => (hkeep P).trans (h.keeps P), Nat.le_trans (Nat.le_succ _) h.next_le,
        fun hb => h.balanced (hb.handOut (Handles.get?_unused _ wish) rfl), fun ht => h.table (ht.open _ _), fun n hn => ?_, fun n x hx => ?_⟩
      · rcases mem_cons.mp hn with heq | hn
        · cases heq
          exact hself.keeps (h.keeps fun _ => True) fun _ => trivial
        · exact h.held n hn
      · rcases h.opened n x hx with hx | ⟨hle, heq, hmem⟩
        · rw [show (w.openFd wish holder).2.fds = w.fds.set (unused w.fds.numbers wish)
            ⟨w.next, holder⟩ from rfl, Handles.get?_set] at hx
          split at hx
          · rename_i hn
            cases hx
            rw [hn]
            exact .inr ⟨Nat.le_refl _, rfl, mem_cons_self⟩
          · exact .inl hx
        · exact .inr ⟨Nat.le_of_succ_le hle, heq, mem_cons_of_mem _ hmem⟩

theorem openFds_fresh (w : World) (holder : Holder) (wishes : List (Option Nat)) :
    (∀ n ∈ (w.openFds holder wishes).1.reduceOption, w.fds.get? n = none) ∧
      (w.openFds holder wishes).1.reduceOption.Nodup := by
  induction wishes generalizing w with
  | nil => exact ⟨nofun, nodup_nil⟩
  | cons wish wishes ih =>
    cases wish with
    | none => exact ih w
    | some wish =>
      obtain ⟨hfree, hnodup⟩ := ih (w.openFd wish holder).2
      have hget : ∀ n, (w.openFd wish holder).2.fds.get? n = none →
          n ≠ (w.openFd wish holder).1 ∧ w.fds.get? n = none := by
        intro n hn
        rw [show (w.openFd wish holder).2.fds = w.fds.set (w.openFd wish holder).1
          ⟨w.next, holder⟩ from rfl, Handles.get?_set] at hn
        split at hn
        · cases hn
        · exact ⟨by assumption, hn⟩
      have hlist : (w.openFds holder (some wish :: wishes)).1.reduceOption =
          (w.openFd wish holder).1 :: ((w.openFd wish holder).2.openFds holder wishes).1.reduceOption :=
        reduceOption_cons_of_some _ _
      rw [hlist]
      refine ⟨fun n hn => ?_, nodup_cons.mpr ⟨fun hmem => ?_, hnodup⟩⟩
      · rcases mem_cons.mp hn with rfl | hn
        · exact Handles.get?_unused _ wish
        · exact (hget n (hfree n hn)).2
      · exact (hget _ (hfree _ hmem)).1 rfl

theorem Change.remove (h : w.Sound) {id : Nat} (hgone : σ.gone id)
    (hshut : ∀ holder : Holder, holder.device? = some id → σ.shut holder) :
    Change σ w (removeDevice w id) := by
  unfold removeDevice
  cases hfind : w.device? id with
  | none => exact .refl h
  | some d =>
    obtain ⟨hd, rfl⟩ := World.device?_mem hfind
    have hkeep : w.fds.Keeps (fun x => x.holder.device? ≠ some d.id) (w.fds.eraseAll d.fds) := by
      refine Handles.keeps_eraseAll fun n hn x hget hne => ?_
      obtain ⟨holder, hheld, hdev⟩ := (h.devices d hd).fds hn
      exact hne (hheld.holder_eq hget ▸ hdev)
    have hsub : ∀ x ∈ w.devices.filter (·.id ≠ d.id), x ∈ w.devices ∧ x.id ≠ d.id :=
      fun x hx => by simpa using mem_filter.mp hx
    exact {
      worker := rfl
      async := rfl
      deferred := rfl
      log := rfl
      next_le := Nat.le_refl _
      sound := {
        ids := h.ids.sublist (filter_sublist.map _)
        devices := fun x hx => (h.devices x (hsub x hx).1).keeps
          (hkeep.mono fun y hy hy' => (hsub x hx).2 (Option.some_inj.mp (hy.symm.trans hy')))
          (Nat.le_refl _)
        worker := fun j hj n hn => (h.worker j hj n hn).keeps hkeep fun _ => nofun
        table := h.table.eraseAll _ }
      accounted := fun ha => {
        balanced := ha.balanced.giveBack ((h.devices d hd).fds_nodup (ha.bars d hd)) fun n hn =>
          (h.devices d hd).fds_open hn
        bars := fun x hx => ha.bars x (hsub x hx).1
        owned := fun n x hn hx => by
          obtain ⟨hn, hnot⟩ := Handles.get?_of_eraseAll hn
          obtain ⟨y, hy, hslot⟩ := ha.owned n x hn hx
          refine ⟨y, mem_filter.mpr ⟨hy, decide_eq_true fun heq => hnot ?_⟩, hslot⟩
          rw [← h.eq_of_id hy hd heq, ← Device.slots_fds]
          exact mem_map.mpr ⟨_, hslot, rfl⟩ }
      keeps := hkeep.mono fun x hx hdev => hx (hshut _ hdev)
      opened := fun n x hx => .inl (Handles.get?_of_eraseAll hx).1
      kept := fun x hx hne => ⟨x, mem_filter.mpr ⟨hx, decide_eq_true fun heq =>
        hne (heq ▸ hgone)⟩, rfl, rfl⟩
      came := fun x hx => .inl ⟨x, (hsub x hx).1, rfl, rfl, rfl⟩
      buffers := fun x hx b hb => .inl ⟨x, (hsub x hx).1, rfl, hb⟩ }

theorem Change.open (h : w.Sound) (path : String) (o : Opening) :
    Change σ w (deviceOpen w path o) := by
  have ho := openFds_opens { w with next := w.next + 1 } (.bar w.next) o.bars
  have hnodup := (openFds_fresh { w with next := w.next + 1 } (.bar w.next) o.bars).2
  rcases hopen : { w with next := w.next + 1 }.openFds (.bar w.next) o.bars with ⟨bars, w'⟩
  have hworld : deviceOpen w path o =
      { w' with devices := w'.devices ++ [o.device w.next path bars] } := by
    simp only [deviceOpen, hopen]
  rw [hworld]
  rw [hopen] at ho hnodup
  change Opens { w with next := w.next + 1 } w' (.bar w.next) bars at ho
  have hdevices : w'.devices = w.devices := by rw [ho.rest]
  have hworker : w'.worker = w.worker := by rw [ho.rest]
  have hnext : w.next < w'.next := ho.next_le
  generalize hd : o.device w.next path bars = d
  have hid : d.id = w.next := by rw [← hd]; rfl
  have hbars : d.bars = bars := by rw [← hd]; rfl
  have hbuf : d.buffers = [] := by rw [← hd]; rfl
  have hwriter : ∀ writer, d.writer = some writer → writer = {} := by
    intro writer hw
    rw [← hd, Opening.device] at hw
    simp only [] at hw
    split at hw
    · exact (Option.some_inj.mp hw).symm
    · cases hw
  have hds : d.Sound w'.fds w'.next := by
    refine ⟨hid ▸ hnext, by simp [hbuf], by simp [hbuf], ?_, by simp [hbuf], ?_, ?_,
      by simp [hbuf], ?_⟩
    · rw [Device.blocks, hbuf, ← hd]
      exact Vrtd.Arena.Sound.init
    · rw [← hd]
      intro q hq
      cases hq
    · rw [hid, ← hd]
      exact ho.held
    · intro writer hw
      rw [hwriter writer hw]
      exact ⟨rfl, fun m hm => by cases hm⟩
  have hmem : ∀ x, x ∈ w'.devices ++ [d] ↔ x ∈ w.devices ∨ x = d := fun x => by
    rw [hdevices, mem_append, mem_singleton]
  exact {
    worker := hworker
    async := by rw [ho.rest]
    deferred := by rw [ho.rest]
    log := by rw [ho.rest]
    next_le := Nat.le_of_lt hnext
    sound := {
      ids := by
        show ((w'.devices ++ [d]).map (·.id)).Nodup
        rw [hdevices, map_append, nodup_append]
        refine ⟨h.ids, nodup_singleton _, fun x hx y hy => ?_⟩
        obtain ⟨d', hd', rfl⟩ := mem_map.mp hx
        obtain ⟨d'', hd'', rfl⟩ := mem_map.mp hy
        rw [mem_singleton.mp hd'', hid]
        exact Nat.ne_of_lt (h.devices d' hd').id_lt
      devices := fun x hx => by
        rcases (hmem x).mp hx with hx | rfl
        · exact (h.devices x hx).keeps (ho.keeps _) (Nat.le_of_lt hnext)
        · exact hds
      worker := fun j hj n hn => by
        exact (h.worker j (hworker ▸ hj) n hn).keeps (ho.keeps fun _ => True) fun _ => trivial
      table := ho.table (h.table.le (Nat.le_succ _)) }
    accounted := fun ha => {
      balanced := ho.balanced (ha.balanced.le (Nat.le_succ _))
      bars := fun x hx => by
        rcases (hmem x).mp hx with hx | rfl
        · exact ha.bars x hx
        · rw [hbars]
          exact hnodup
      owned := fun n x hn hx => by
        rcases ho.opened n x hn with hn | ⟨-, hholder, hbar⟩
        · obtain ⟨y, hy, hslot⟩ := ha.owned n x hn hx
          exact ⟨y, (hmem y).mpr (.inl hy), hslot⟩
        · refine ⟨d, (hmem d).mpr (.inr rfl), Device.mem_slots.mpr (.inl ⟨?_, ?_⟩)⟩
          · rw [hbars]
            exact hbar
          · rw [hid]
            exact hholder }
    keeps := ho.keeps _
    opened := fun n x hx => by
      rcases ho.opened n x hx with hx | ⟨hle, hholder, -⟩
      · exact .inl hx
      · exact .inr ⟨Nat.le_of_succ_le hle, .inl (by rw [hholder]; rfl)⟩
    kept := fun x hx _ => ⟨x, (hmem x).mpr (.inl hx), rfl, rfl⟩
    came := fun x hx => by
      rcases (hmem x).mp hx with hx | rfl
      · exact .inl ⟨x, hx, rfl, rfl, rfl⟩
      · exact .inr ⟨Nat.le_of_eq hid.symm, hwriter⟩
    buffers := fun x hx b hb => by
      rcases (hmem x).mp hx with hx | rfl
      · exact .inl ⟨x, hx, rfl, hb⟩
      · rw [hbuf] at hb
        cases hb }

theorem devicesOpen_change (probes : List Probe) : ∀ {w : World}, w.Sound →
    Change σ w (devicesOpen w probes).1 := by
  induction probes with
  | nil => exact fun h => .refl h
  | cons p probes ih =>
    intro w h
    unfold devicesOpen
    split
    · exact ih h
    · cases p.opening with
      | none => exact .refl h
      | some o =>
        have hopen := Change.open (σ := σ) h p.path o
        exact hopen.trans (ih hopen.sound)

theorem devicesDiscoverAndOpen_change (found : Discovery) (h : w.Sound) :
    Change σ w (devicesDiscoverAndOpen w found).1 := by
  cases found with
  | none => exact .refl h
  | some probes => exact devicesOpen_change probes h

theorem setBootedShell_eq (devices : List Device) (bdf : String) (shell : ShellType)
    (hids : (devices.map (·.id)).Nodup) : setBootedShell devices bdf shell = devices ∨
      ∃ d ∈ devices, setBootedShell devices bdf shell = devices.map fun x =>
        if x.id = d.id then { x with currentShell := shell } else x := by
  induction devices with
  | nil => exact .inl rfl
  | cons d devices ih =>
    obtain ⟨hfresh, hids⟩ := nodup_cons.mp hids
    unfold setBootedShell
    split
    · refine .inr ⟨d, mem_cons_self, ?_⟩
      rw [map_cons, if_pos rfl]
      congr 1
      refine ((map_congr_left fun x hx => ?_).trans (map_id' devices)).symm
      exact if_neg fun heq => hfresh (mem_map.mpr ⟨x, hx, heq⟩)
    · rcases ih hids with heq | ⟨d', hd', heq⟩
      · exact .inl (by rw [heq])
      · refine .inr ⟨d', mem_cons_of_mem _ hd', ?_⟩
        rw [heq, map_cons, if_neg fun hid => hfresh (mem_map.mpr ⟨d', hd', hid.symm⟩)]

theorem Change.booted (h : w.Sound) (bdf : String) (shell : ShellType) :
    Change σ w { w with devices := setBootedShell w.devices bdf shell } := by
  rcases setBootedShell_eq w.devices bdf shell h.ids with heq | ⟨d, hd, heq⟩
  · rw [heq]
    exact .refl h
  · rw [heq]
    exact Change.mild (f := fun x => { x with currentShell := shell }) h hd (fun _ => rfl)
      ⟨rfl, rfl, rfl, rfl, rfl, rfl, fun q hq => .inr (.inr ⟨q, hq, rfl, rfl, rfl⟩)⟩ (Nat.le_refl _)

theorem rediscover_change (h : w.Sound) (bdf : String) (partition : Nat) (found : Discovery) :
    Change σ w (rediscover w bdf partition found).1 := by
  have hfound := devicesDiscoverAndOpen_change (σ := σ) found h
  unfold rediscover
  generalize devicesDiscoverAndOpen w found = result at hfound
  obtain ⟨w', opened⟩ := result
  cases opened with
  | false => exact hfound
  | true => exact hfound.trans (.booted hfound.sound bdf _)

theorem reset_change (h : w.Sound) (d : Device) (partition : Nat) (reset : ResetRun)
    (hgone : σ.gone d.id) (hshut : ∀ holder : Holder, holder.device? = some d.id → σ.shut holder) :
    Change σ w (resetWithAmiPartition w d partition reset).1 := by
  have hremove := Change.remove h hgone hshut
  cases reset with
  | early => exact .refl h
  | late err => exact hremove
  | rediscovered found => exact hremove.trans (rediscover_change hremove.sound d.bdf partition found)

theorem Change.handOut (h : w.Sound) (hhands : σ.hands) (wish : Nat) :
    Change σ w (w.openFd wish .handedOut).2 ∧
      Held (w.openFd wish .handedOut).2.fds (w.openFd wish .handedOut).1 .handedOut := by
  have ho := openFds_opens w .handedOut [some wish]
  refine ⟨?_, ho.held _ mem_cons_self⟩
  exact {
    worker := rfl
    async := rfl
    deferred := rfl
    log := rfl
    next_le := ho.next_le
    sound := {
      ids := h.ids
      devices := fun d hd => (h.devices d hd).keeps (ho.keeps _) ho.next_le
      worker := fun j hj n hn =>
        (h.worker j hj n hn).keeps (ho.keeps fun _ => True) fun _ => trivial
      table := ho.table h.table }
    accounted := fun ha => ha.openFd wish rfl
    keeps := ho.keeps _
    opened := fun n x hx => (ho.opened n x hx).imp id fun hx => ⟨hx.1, .inr ⟨hx.2.1, hhands⟩⟩
    kept := fun d hd _ => ⟨d, hd, rfl, rfl⟩
    came := fun d hd => .inl ⟨d, hd, rfl, rfl, rfl⟩
    buffers := fun d hd b hb => .inl ⟨d, hd, rfl, hb⟩ }

/-! ## The refresh after a design write -/

/-- The BAR files are closed, and `bars` are open in their place. -/
theorem Device.Sound.rebar {t t' : Handles Descriptor} {next next' : Nat} {d : Device}
    (h : d.Sound t next) (hkeep : t.Keeps (fun x => x.holder ≠ .bar d.id) t') (hle : next ≤ next')
    {bars : List (Option Nat)} (hbars : ∀ n, some n ∈ bars → Held t' n (.bar d.id)) :
    Device.Sound t' next' { d with bars := bars } where
  id_lt := Nat.lt_of_lt_of_le h.id_lt hle
  buffer_lt := fun b hb => Nat.lt_of_lt_of_le (h.buffer_lt b hb) hle
  buffer_ids := h.buffer_ids
  memory := h.memory
  placed := h.placed
  qpairs := h.qpairs
  bars := hbars
  transfers := fun b hb => by
    obtain ⟨n, hfd, hheld⟩ := h.transfers b hb
    exact ⟨n, hfd, hheld.keeps hkeep fun _ => nofun⟩
  writers := fun writer hw =>
    ⟨(h.writers writer hw).1, fun n hn => ((h.writers writer hw).2 n hn).keeps hkeep fun _ => nofun⟩

theorem Change.rebar (h : w.Sound) {d : Device} (hd : d ∈ w.devices) (hshut : σ.shut (.bar d.id))
    {bars : List (Option Nat)} (hnodup : bars.reduceOption.Nodup)
    (ho : Opens (w.closeFds d.bars.reduceOption) w' (.bar d.id) bars) {f : Device → Device}
    (hf : ∀ x, (f x).id = x.id) (hfd : f d = { d with bars := bars }) :
    Change σ w (w'.updDevice d.id f) := by
  have hs := h.devices d hd
  have hclose : w.fds.Keeps (fun x => x.holder ≠ .bar d.id)
      (w.closeFds d.bars.reduceOption).fds :=
    keeps_close fun n hn => hs.bars n (reduceOption_mem_iff.mp hn)
  have hkeep := hclose.trans (ho.keeps _)
  have hworld : w' = { w with fds := w'.fds, next := w'.next, ledger := w'.ledger } := ho.rest
  rw [hworld]
  refine Change.device h hd hf (by rw [hfd]) (by rw [hfd]) ho.next_le ?_ (fun ha => ?_) ?_
    (hkeep.mono ?_) (hkeep.mono ?_) ?_ ?_
  · rw [hfd]
    exact hs.rebar hkeep ho.next_le ho.held
  · have hclosed := ha.close d.bars.reduceOption (ha.bars d hd) fun n hn =>
      (hs.bars n (reduceOption_mem_iff.mp hn)).isSome
    refine ha.device h hd (ho.balanced hclosed.balanced) (by rw [hfd]; exact hnodup)
      fun n x hn hdev => ?_
    rw [hfd]
    rcases ho.opened n x hn with hn | ⟨-, hholder, hbar⟩
    · obtain ⟨hn, hnot⟩ := Handles.get?_of_eraseAll hn
      rcases ha.owned_by h hd hn hdev with hslot | hne
      · refine .inl (Device.mem_slots.mpr ((Device.mem_slots.mp hslot).imp (fun hbar => ?_) id))
        exact absurd (reduceOption_mem_iff.mpr hbar.1) hnot
      · exact .inr ⟨hn, hne⟩
    · exact .inl (Device.mem_slots.mpr (.inl ⟨hbar, hholder⟩))
  · exact ho.table (h.table.eraseAll _)
  · rintro x hx heq
    exact hx (heq ▸ hshut)
  · rintro x hx heq
    exact hx (by rw [heq]; rfl)
  · intro n x hx
    rcases ho.opened n x hx with hx | ⟨hle, hholder, -⟩
    · exact .inl (Handles.get?_of_eraseAll hx).1
    · exact .inr ⟨hle, by rw [hholder]; rfl⟩
  · rw [hfd]
    exact fun b hb => .inl hb

theorem refresh_change (h : w.Sound) {d : Device} (hd : d ∈ w.devices)
    (hshut : σ.shut (.bar d.id)) (refresh : RefreshRun) :
    Change σ w (deviceRefreshPf2 w d refresh).1 := by
  cases refresh with
  | early err => exact .refl h
  | ctlLost =>
    have hopens : Opens (w.closeFds d.bars.reduceOption) (w.closeFds d.bars.reduceOption) (.bar d.id)
        (d.bars.map fun _ => none) :=
      ⟨rfl, fun P => .refl P _, Nat.le_refl _, id, id, by simp, fun _ _ h => .inl h⟩
    have hnone : (d.bars.map fun _ => (none : Option Nat)).reduceOption.Nodup := by
      rw [List.reduceOption, filterMap_map]
      simp
    exact Change.rebar h hd hshut hnone hopens (fun _ => rfl) rfl
  | reopened wishes =>
    exact Change.rebar h hd hshut (openFds_fresh _ _ wishes).2 (openFds_opens _ _ wishes)
      (fun _ => rfl) rfl

end Slash.Daemon
