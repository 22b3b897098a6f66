import Slash.Daemon.Served

/-!
# Receiving a message

What `client_handle_in` does to the descriptors: the one that came with the last request is closed,
the kernel installs those of the new message, and the walk over the control messages takes one,
closes what it refuses and leaves the rest where they are. Nobody else's descriptor is touched.
-/

namespace Slash.Daemon

open Lib List

/-! ## Messages that are taken -/

/-- At most one control message with descriptors, and in it exactly one. -/
def controlTaken : Bool → List Cmsg → Bool
  | _, [] => true
  | taken, .other :: control => controlTaken taken control
  | taken, .rights fds ragged :: control =>
    !ragged && !taken && fds.length = 1 && controlTaken true control

/-- Nothing was received, or a whole and well-framed message with at most one descriptor. -/
def Recv.acceptable : Recv → Bool
  | .again => true
  | .error => false
  | .message i => !i.truncated && i.framed && controlTaken false i.control

/-! ## The kernel's part -/

def cmsgNumbers (control : List Cmsg) : List Nat :=
  control.flatMap fun
    | .rights fds _ => fds
    | .other => []

@[simp] theorem cmsgNumbers_other (control : List Cmsg) :
    cmsgNumbers (.other :: control) = cmsgNumbers control := rfl

@[simp] theorem cmsgNumbers_rights (fds : List Nat) (ragged : Bool) (control : List Cmsg) :
    cmsgNumbers (.rights fds ragged :: control) = fds ++ cmsgNumbers control := rfl

/-- What the kernel has installed when `recvmsg` returns. -/
structure Installed (w w' : World) (control : List Cmsg) : Prop where
  opens : Opens w w' .stray ((cmsgNumbers control).map some)
  free : ∀ n ∈ cmsgNumbers control, w.fds.get? n = none
  nodup : (cmsgNumbers control).Nodup

theorem install_installed (w : World) (control : List Cmsg) :
    Installed w (install w control).2 (install w control).1 := by
  induction control generalizing w with
  | nil =>
    exact ⟨⟨rfl, fun P => .refl P _, Nat.le_refl _, id, id, nofun, fun _ _ h => .inl h⟩, nofun,
      nodup_nil⟩
  | cons cmsg control ih =>
    cases cmsg with
    | other => exact ⟨(ih w).opens, (ih w).free, (ih w).nodup⟩
    | rights fds ragged =>
      have ho := openFds_opens w .stray (fds.map some)
      have hf := openFds_fresh w .stray (fds.map some)
      have h := ih (w.openFds .stray (fds.map some)).2
      have hcontrol : (install w (.rights fds ragged :: control)).1 =
          .rights (w.openFds .stray (fds.map some)).1.reduceOption ragged ::
            (install (w.openFds .stray (fds.map some)).2 control).1 := rfl
      have hworld : (install w (.rights fds ragged :: control)).2 =
          (install (w.openFds .stray (fds.map some)).2 control).2 := rfl
      rw [hcontrol, hworld]
      generalize w.openFds .stray (fds.map some) = opened at ho hf h
      obtain ⟨ns, w₁⟩ := opened
      generalize install w₁ control = installed at h
      obtain ⟨control', w₂⟩ := installed
      have hfirst : ∀ n ∈ ns.reduceOption, Held w₁.fds n .stray := fun n hn =>
        ho.held n (reduceOption_mem_iff.mp hn)
      have hfree₁ : ∀ n, w₁.fds.get? n = none → w.fds.get? n = none := by
        intro n hn
        cases hget : w.fds.get? n with
        | none => rfl
        | some d =>
          rw [ho.keeps (fun _ => True) n d hget trivial] at hn
          cases hn
      refine ⟨⟨?_, fun P => (ho.keeps P).trans (h.opens.keeps P),
        Nat.le_trans ho.next_le h.opens.next_le, fun hb => h.opens.balanced (ho.balanced hb),
        fun ht => h.opens.table (ho.table ht), ?_, ?_⟩, ?_, ?_⟩
      · have hrest := h.opens.rest
        rw [ho.rest] at hrest
        exact hrest
      · intro n hn
        simp only [cmsgNumbers_rights, map_append, mem_append, mem_map,
          Option.some.injEq, exists_eq_right] at hn
        rcases hn with hn | hn
        · exact (hfirst n hn).keeps (h.opens.keeps fun _ => True) fun _ => trivial
        · exact h.opens.held n (mem_map.mpr ⟨n, hn, rfl⟩)
      · intro n d hn
        rcases h.opens.opened n d hn with hn | ⟨hle, hholder, hmem⟩
        · rcases ho.opened n d hn with hn | ⟨hle, hholder, hmem⟩
          · exact .inl hn
          · refine .inr ⟨hle, hholder, mem_map.mpr ⟨n, mem_append_left _ ?_, rfl⟩⟩
            exact reduceOption_mem_iff.mpr hmem
        · obtain ⟨m, hm, heq⟩ := mem_map.mp hmem
          cases heq
          refine .inr ⟨Nat.le_trans ho.next_le hle, hholder, ?_⟩
          exact mem_map.mpr ⟨n, mem_append_right _ hm, rfl⟩
      · intro n hn
        rcases mem_append.mp hn with hn | hn
        · exact hf.1 n hn
        · exact hfree₁ n (h.free n hn)
      · refine nodup_append.mpr ⟨hf.2, h.nodup, fun n hn m hm heq => ?_⟩
        obtain ⟨object, hget⟩ := hfirst n hn
        rw [heq, h.free m hm] at hget
        cases hget

/-! ## The walk over the control messages -/

theorem hold_of_held {w : World} {n : Nat} {holder : Holder} (h : Held w.fds n holder)
    (holder' : Holder) : ∃ object, w.fds.get? n = some ⟨object, holder⟩ ∧
      w.hold n holder' = { w with fds := w.fds.set n ⟨object, holder'⟩ } := by
  obtain ⟨object, hget⟩ := h
  exact ⟨object, hget, by simp only [World.hold, hget]⟩

/-- Where the walk ends: the descriptors it was to look at are stray no more, or are left. -/
structure Takes (w : World) (c : Client) (control : List Cmsg) (w' : World) (c' : Client)
    (ok : Bool) : Prop where
  rest : w' = { w with fds := w'.fds, ledger := w'.ledger }
  balanced : Balanced Descriptor.object w.fds w.ledger w.next →
    Balanced Descriptor.object w'.fds w'.ledger w.next
  table : Table w.fds w.next → Table w'.fds w.next
  keeps : ∀ n d, w.fds.get? n = some d → n ∉ cmsgNumbers control → w'.fds.get? n = some d
  client : c' = { c with inFd := c'.inFd }
  slot : c.inFd.isSome → c'.inFd = c.inFd
  inbound : ∀ n, c'.inFd = some n → Held w'.fds n (.inbound c.id)
  opened : ∀ n d, w'.fds.get? n = some d → w.fds.get? n = some d ∨
    d.holder = .inbound c.id ∧ c'.inFd = some n ∧ w.fds.get? n = some ⟨d.object, .stray⟩
  accepted : controlTaken c.inFd.isSome control = true → ok = true ∧
    ∀ n ∈ cmsgNumbers control, ∀ d, w'.fds.get? n = some d → d.holder ≠ .stray

theorem takeRights_closes {w : World} {c : Client} {control : List Cmsg} {fds : List Nat}
    (hstray : ∀ n ∈ fds, Held w.fds n .stray) (hnodup : fds.Nodup)
    (hsub : fds ⊆ cmsgNumbers control)
    (hin : ∀ n, c.inFd = some n → Held w.fds n (.inbound c.id))
    (hrefused : controlTaken c.inFd.isSome control = false) :
    Takes w c control (w.closeFds fds) c false where
  rest := rfl
  balanced := fun hb => hb.giveBack hnodup fun n hn => (hstray n hn).isSome
  table := fun ht => ht.eraseAll fds
  keeps := fun n d hn hnot => by
    rw [closeFds_fds, Handles.get?_eraseAll, if_neg fun hmem => hnot (hsub hmem), hn]
  client := rfl
  slot := fun _ => rfl
  inbound := fun n hn => (hin n hn).keeps (keeps_close hstray) fun _ => nofun
  opened := fun n d hn => .inl (Handles.get?_of_eraseAll hn).1
  accepted := fun h => by
    rw [hrefused] at h
    cases h

theorem takeRights_takes (control : List Cmsg) : ∀ {w : World} {c : Client},
    (∀ n ∈ cmsgNumbers control, Held w.fds n .stray) → (cmsgNumbers control).Nodup →
    (∀ n, c.inFd = some n → Held w.fds n (.inbound c.id)) →
    Takes w c control (takeRights w c control).1 (takeRights w c control).2.1
      (takeRights w c control).2.2 := by
  induction control with
  | nil =>
    intro w c _ _ hin
    exact ⟨rfl, id, id, fun _ _ hn _ => hn, rfl, fun _ => rfl, hin, fun _ _ hn => .inl hn,
      fun _ => ⟨rfl, nofun⟩⟩
  | cons cmsg control ih =>
    intro w c hstray hnodup hin
    cases cmsg with
    | other =>
      have h := ih hstray hnodup hin
      exact ⟨h.rest, h.balanced, h.table, h.keeps, h.client, h.slot, h.inbound, h.opened,
        h.accepted⟩
    | rights fds ragged =>
      have hfds : ∀ n ∈ fds, Held w.fds n .stray := fun n hn => hstray n (mem_append_left _ hn)
      have hdistinct : fds.Nodup := (nodup_append.mp hnodup).1
      unfold takeRights
      cases ragged with
      | true =>
        exact takeRights_closes hfds hdistinct (subset_append_left _ _) hin
          (by simp [controlTaken])
      | false =>
        simp only [Bool.false_eq_true, if_false]
        split
        · rename_i fd hnone
          -- the descriptor becomes the client's, and the walk goes on with the slot taken
          obtain ⟨object, hget, hhold⟩ := hold_of_held (hfds fd mem_cons_self) (.inbound c.id)
          have hfd : fd ∉ cmsgNumbers control := (nodup_cons.mp hnodup).1
          have hset := Handles.get?_set w.fds fd (v := ⟨object, .inbound c.id⟩)
          rw [hhold]
          have h := @ih { w with fds := w.fds.set fd ⟨object, .inbound c.id⟩ }
            { c with inFd := some fd }
            (fun n hn => by
              obtain ⟨o, ho⟩ := hstray n (mem_append_right _ hn)
              have hne : n ≠ fd := fun heq => hfd (heq ▸ hn)
              exact ⟨o, by rw [hset, if_neg hne, ho]⟩)
            (nodup_cons.mp hnodup).2
            (fun n hn => by
              cases hn
              exact ⟨object, by rw [hset, if_pos rfl]⟩)
          have hslot := h.slot rfl
          refine ⟨h.rest, fun hb => h.balanced (hb.change hget rfl),
            fun ht => h.table (ht.hold hget (.inbound c.id)), ?_, h.client, ?_, h.inbound, ?_, ?_⟩
          · intro n d hn hnot
            have hne : n ≠ fd := fun heq => hnot (heq ▸ mem_cons_self)
            exact h.keeps n d (by rw [hset, if_neg hne, hn]) fun hmem =>
              hnot (mem_cons_of_mem _ hmem)
          · rw [hnone]
            exact nofun
          · intro n d hn
            rcases h.opened n d hn with hn | ⟨hholder, hin', hn⟩
            · rw [hset] at hn
              split at hn
              · rename_i heq
                cases hn
                exact .inr ⟨rfl, heq ▸ hslot, heq ▸ hget⟩
              · exact .inl hn
            · rw [hset] at hn
              split at hn
              · cases hn
              · exact .inr ⟨hholder, hin', hn⟩
          · intro hok
            have hok' : controlTaken true control = true := by
              simpa [controlTaken, hnone] using hok
            obtain ⟨hok, hleft⟩ := h.accepted hok'
            refine ⟨hok, fun n hn d hget' => ?_⟩
            rcases mem_cons.mp hn with rfl | hn
            · rw [(h.inbound n hslot).holder_eq hget']
              exact nofun
            · exact hleft n hn d hget'
        · rename_i fds _ _ hnot
          refine takeRights_closes hfds hdistinct (subset_append_left _ _) hin ?_
          cases hin' : c.inFd with
          | some n => simp [controlTaken]
          | none =>
            have hlen : fds.length ≠ 1 := fun hlen => by
              obtain ⟨fd, rfl⟩ := length_eq_one_iff.mp hlen
              exact hnot fd rfl hin'
            simp [controlTaken, hlen]

/-! ## The whole of `client_handle_in` -/

theorem openFds_length (w : World) (holder : Holder) (wishes : List Nat) :
    (w.openFds holder (wishes.map some)).1.reduceOption.length = wishes.length := by
  induction wishes generalizing w with
  | nil => rfl
  | cons wish wishes ih =>
    have hlist : (w.openFds holder ((wish :: wishes).map some)).1.reduceOption =
        (w.openFd wish holder).1 ::
          ((w.openFd wish holder).2.openFds holder (wishes.map some)).1.reduceOption :=
      reduceOption_cons_of_some _ _
    rw [hlist, length_cons, ih, length_cons]

/-- Whether a message is taken does not depend on the numbers its descriptors get. -/
theorem install_controlTaken (w : World) (control : List Cmsg) (taken : Bool) :
    controlTaken taken (install w control).1 = controlTaken taken control := by
  induction control generalizing w taken with
  | nil => rfl
  | cons cmsg control ih =>
    cases cmsg with
    | other => exact ih w taken
    | rights fds ragged =>
      show controlTaken taken (.rights (w.openFds .stray (fds.map some)).1.reduceOption ragged ::
        (install (w.openFds .stray (fds.map some)).2 control).1) = _
      simp only [controlTaken, openFds_length, ih]

structure Receives (w : World) (c : Client) (recv : Recv) (w' : World) (c' : Client) (ok : Bool) :
    Prop where
  rest : w' = { w with fds := w'.fds, next := w'.next, ledger := w'.ledger }
  next_le : w.next ≤ w'.next
  balanced : (∀ n, c.inFd = some n → (w.fds.get? n).isSome) →
    Balanced Descriptor.object w.fds w.ledger w.next →
    Balanced Descriptor.object w'.fds w'.ledger w'.next
  table : Table w.fds w.next → Table w'.fds w'.next
  keeps : ∀ n d, w.fds.get? n = some d → c.inFd ≠ some n → w'.fds.get? n = some d
  client : c' = { c with inFd := c'.inFd, held := c'.held }
  inbound : ∀ n, c'.inFd = some n → Held w'.fds n (.inbound c.id)
  opened : ∀ n d, w'.fds.get? n = some d → w.fds.get? n = some d ∧ c.inFd ≠ some n ∨
    d.holder = .stray ∨ d.holder = .inbound c.id ∧ c'.inFd = some n
  objects : ∀ n d, w'.fds.get? n = some d → w.next ≤ d.object ∨
    ∃ d', w.fds.get? n = some d' ∧ d'.object = d.object
  accepted : recv.acceptable = true → ok = true ∧
    ∀ n d, w'.fds.get? n = some d → d.holder = .stray → w.fds.get? n = some d

/-- Closing the descriptor of the last request, which is where every call starts. -/
theorem receives_close (w : World) (c : Client) (recv : Recv) (ok : Bool)
    (hok : recv.acceptable = true → ok = true) :
    Receives w c recv (w.closeFds c.inFd.toList) { c with inFd := none } ok where
  rest := rfl
  next_le := Nat.le_refl _
  balanced := fun hin hb => hb.giveBack (by cases c.inFd <;> simp) fun n hn =>
    hin n (Option.mem_toList.mp hn)
  table := fun ht => ht.eraseAll _
  keeps := fun n d hn hne => by
    rw [closeFds_fds, Handles.get?_eraseAll, if_neg fun hmem => hne (Option.mem_toList.mp hmem), hn]
  client := rfl
  inbound := nofun
  opened := fun n d hn => by
    obtain ⟨hn, hnot⟩ := Handles.get?_of_eraseAll hn
    exact .inl ⟨hn, fun heq => hnot (Option.mem_toList.mpr heq)⟩
  objects := fun n d hn => .inr ⟨d, (Handles.get?_of_eraseAll hn).1, rfl⟩
  accepted := fun h => ⟨hok h, fun n d hn _ => (Handles.get?_of_eraseAll hn).1⟩

theorem Receives.trans_message {w w₁ w₂ : World} {c c₂ : Client} {i : Incoming}
    {control : List Cmsg} {ok : Bool}
    (h : Receives w c .again w₁ { c with inFd := none } true) (hi : Installed w₁ w₂ control)
    (hshape : ∀ taken, controlTaken taken control = controlTaken taken i.control) {w₃ : World}
    (ht : Takes w₂ { c with inFd := none } control w₃ c₂ ok) (held : Option Message)
    (ok' : Bool) (hok : Recv.acceptable (.message i) = true → ok = true → ok' = true) :
    Receives w c (.message i) w₃ { c₂ with held := held } ok' where
  rest := by
    have hrest := ht.rest
    rw [hi.opens.rest, h.rest] at hrest
    rw [hrest]
  next_le := by
    have hnext : w₃.next = w₂.next := by rw [ht.rest]
    rw [hnext]
    exact Nat.le_trans h.next_le hi.opens.next_le
  balanced := fun hin hb => by
    have hnext : w₃.next = w₂.next := by rw [ht.rest]
    rw [hnext]
    exact ht.balanced (hi.opens.balanced (h.balanced hin hb))
  table := fun htable => by
    have hnext : w₃.next = w₂.next := by rw [ht.rest]
    rw [hnext]
    exact ht.table (hi.opens.table (h.table htable))
  keeps := fun n d hn hne => by
    have hn₁ := h.keeps n d hn hne
    refine ht.keeps n d (hi.opens.keeps (fun _ => True) n d hn₁ trivial) fun hmem => ?_
    rw [hi.free n hmem] at hn₁
    cases hn₁
  client := by
    rw [ht.client]
  inbound := ht.inbound
  opened := fun n d hn => by
    rcases ht.opened n d hn with hn | ⟨hholder, hin, -⟩
    · rcases hi.opens.opened n d hn with hn | ⟨-, hholder, -⟩
      · exact (h.opened n d hn).imp id fun hor => hor.imp id fun hor => nomatch hor.2
      · exact .inr (.inl hholder)
    · exact .inr (.inr ⟨hholder, hin⟩)
  objects := fun n d hn => by
    have hn₂ : ∃ d', w₂.fds.get? n = some d' ∧ d'.object = d.object := by
      rcases ht.opened n d hn with hn | ⟨-, -, hn⟩
      · exact ⟨d, hn, rfl⟩
      · exact ⟨_, hn, rfl⟩
    obtain ⟨d', hn₂, hobject⟩ := hn₂
    rw [← hobject]
    rcases hi.opens.opened n d' hn₂ with hn₁ | ⟨hle, -, -⟩
    · exact h.objects n d' hn₁
    · exact .inl (Nat.le_trans h.next_le hle)
  accepted := fun hacc => by
    have hcontrol : controlTaken false control = true := by
      simp only [Recv.acceptable, Bool.and_eq_true] at hacc
      rw [hshape, hacc.2]
    obtain ⟨htrue, hleft⟩ := ht.accepted hcontrol
    refine ⟨hok hacc htrue, fun n d hn hstray => ?_⟩
    rcases ht.opened n d hn with hn' | ⟨hholder, -, -⟩
    · rcases hi.opens.opened n d hn' with hn' | ⟨-, -, hmem⟩
      · exact (h.accepted rfl).2 n d hn' hstray
      · obtain ⟨m, hm, heq⟩ := mem_map.mp hmem
        cases heq
        exact absurd hstray (hleft n hm d hn)
    · rw [hstray] at hholder
      cases hholder

theorem clientHandleIn_receives (w : World) (c : Client) (recv : Recv) :
    Receives w c recv (clientHandleIn w c recv).1 (clientHandleIn w c recv).2.1
      (clientHandleIn w c recv).2.2 := by
  cases recv with
  | again => exact receives_close w c .again true fun _ => rfl
  | error => exact receives_close w c .error false nofun
  | message i =>
    have hclose := receives_close w c .again true fun _ => rfl
    have hi := install_installed (w.closeFds c.inFd.toList) i.control
    have hshape := install_controlTaken (w.closeFds c.inFd.toList) i.control
    unfold clientHandleIn
    simp only []
    generalize install (w.closeFds c.inFd.toList) i.control = installed at hi hshape
    obtain ⟨control, w₂⟩ := installed
    change Installed (w.closeFds c.inFd.toList) w₂ control at hi
    simp only []
    split
    · rename_i htruncated
      exact {
        rest := by
          have hrest := hi.opens.rest
          rw [hclose.rest] at hrest
          exact hrest
        next_le := hi.opens.next_le
        balanced := fun hin hb => hi.opens.balanced (hclose.balanced hin hb)
        table := fun ht => hi.opens.table (hclose.table ht)
        keeps := fun n d hn hne =>
          hi.opens.keeps (fun _ => True) n d (hclose.keeps n d hn hne) trivial
        client := rfl
        inbound := nofun
        opened := fun n d hn => by
          rcases hi.opens.opened n d hn with hn | ⟨-, hholder, -⟩
          · exact (hclose.opened n d hn).imp id fun hor => hor.imp id fun hor => nomatch hor.2
          · exact .inr (.inl hholder)
        objects := fun n d hn => by
          rcases hi.opens.opened n d hn with hn | ⟨hle, -, -⟩
          · exact hclose.objects n d hn
          · exact .inl hle
        accepted := by simp [Recv.acceptable, htruncated] }
    · have hstray : ∀ n ∈ cmsgNumbers control, Held w₂.fds n .stray := fun n hn =>
        hi.opens.held n (mem_map.mpr ⟨n, hn, rfl⟩)
      have ht := takeRights_takes control (c := { c with inFd := none }) hstray hi.nodup nofun
      generalize takeRights w₂ { c with inFd := none } control = taken at ht
      obtain ⟨w₃, c₂, ok⟩ := taken
      cases ok with
      | false => exact hclose.trans_message hi hshape ht c₂.held false fun _ h => h
      | true =>
        simp only []
        split
        · exact hclose.trans_message hi hshape ht (some i.message) true fun _ h => h
        · rename_i hframed
          refine hclose.trans_message hi hshape ht c₂.held false fun hacc _ => ?_
          simp only [Recv.acceptable, Bool.and_eq_true] at hacc
          exact absurd hacc.1.2 hframed

theorem takeRights_held (control : List Cmsg) : ∀ (w : World) (c : Client),
    (takeRights w c control).2.1.held = c.held := by
  induction control with
  | nil => exact fun _ _ => rfl
  | cons cmsg control ih =>
    intro w c
    cases cmsg with
    | other => exact ih w c
    | rights fds ragged =>
      unfold takeRights
      split
      · rfl
      · split
        · exact ih _ _
        · rfl

theorem clientHandleIn_held {w : World} {c : Client} {recv : Recv} {m : Message}
    (h : (clientHandleIn w c recv).2.1.held = some m) :
    c.held = some m ∨ ∃ i, recv = .message i ∧ i.message = m := by
  cases recv with
  | again => exact .inl h
  | error => exact .inl h
  | message i =>
    unfold clientHandleIn at h
    simp only [] at h
    split at h
    · exact .inl h
    have hheld := takeRights_held (install (w.closeFds c.inFd.toList) i.control).1
      (install (w.closeFds c.inFd.toList) i.control).2 { c with inFd := none }
    generalize takeRights _ _ _ = taken at h hheld
    obtain ⟨w₁, c₁, ok⟩ := taken
    cases ok with
    | false => exact .inl (hheld.symm.trans h)
    | true =>
      simp only [] at h
      split at h
      · exact .inr ⟨i, rfl, Option.some_inj.mp h⟩
      · exact .inl (hheld.symm.trans h)

theorem Receives.keeps_of {w w' : World} {c c' : Client} {recv : Recv} {ok : Bool}
    (hr : Receives w c recv w' c' ok)
    (hin : ∀ n, c.inFd = some n → Held w.fds n (.inbound c.id)) :
    w.fds.Keeps (fun d => d.holder ≠ .inbound c.id) w'.fds := fun n d hn hne =>
  hr.keeps n d hn fun heq => hne ((hin n heq).holder_eq hn)

theorem Receives.accounted {w w' : World} {c c' : Client} {recv : Recv} {ok : Bool}
    (hr : Receives w c recv w' c' ok) (ha : w.Accounted)
    (hin : ∀ n, c.inFd = some n → Held w.fds n (.inbound c.id)) : w'.Accounted := by
  have hdevices : w'.devices = w.devices := by rw [hr.rest]
  refine ⟨hr.balanced (fun n hn => (hin n hn).isSome) ha.balanced, ?_, fun n x hn hx => ?_⟩
  · rw [hdevices]
    exact ha.bars
  · rw [hdevices]
    rcases hr.opened n x hn with ⟨hn, -⟩ | hstray | ⟨hinbound, -⟩
    · exact ha.owned n x hn hx
    · rw [hstray] at hx
      cases hx
    · rw [hinbound] at hx
      cases hx

theorem Receives.sound {w w' : World} {c c' : Client} {recv : Recv} {ok : Bool}
    (hr : Receives w c recv w' c' ok) (h : w.Sound)
    (hin : ∀ n, c.inFd = some n → Held w.fds n (.inbound c.id)) : w'.Sound := by
  have hdevices : w'.devices = w.devices := by rw [hr.rest]
  have hworker : w'.worker = w.worker := by rw [hr.rest]
  have hkeep := hr.keeps_of hin
  constructor
  · rw [hdevices]
    exact h.ids
  · rw [hdevices]
    refine fun d hd => (h.devices d hd).keeps (hkeep.mono fun x hx heq => ?_) hr.next_le
    rw [heq] at hx
    cases hx
  · rw [hworker]
    exact fun j hj n hn => (h.worker j hj n hn).keeps hkeep fun _ => nofun
  · exact hr.table h.table

end Slash.Daemon
