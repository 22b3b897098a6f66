import Slash.Submit.Staging

/-!
# Staging is faithful

At the doorbell the window holds the nodes, the arguments and the cleared slots of the image, and
no staging step has touched the region of another, exactly if the arguments fit their megabyte.
Nodes and slots are bounded by the checks of phase 1; the argument words are not, and a longer
buffer runs into the signal array and then into the trace ring.
-/

namespace Slash.Submit

open Lib List Region GraphImage
open Rp1 (U8 U16 U32)

/-! ## The control block apart -/

structure SameBeyond (w w' : Window) : Prop where
  mapping : SameMapping w w'
  bytes : ∀ o, 0x1000 ≤ o → w'.byte o = w.byte o

theorem SameBeyond.refl (w : Window) : SameBeyond w w := ⟨.refl w, fun _ _ => rfl⟩

theorem SameBeyond.trans {w w' w'' : Window} (h : SameBeyond w w') (h' : SameBeyond w' w'') :
    SameBeyond w w'' :=
  ⟨h.mapping.trans h'.mapping, fun o ho => (h'.bytes o ho).trans (h.bytes o ho)⟩

theorem SameBeyond.spliced (w : Window) {o : Nat} {data : List U8}
    (h : o + data.length ≤ 0x1000) : SameBeyond w (w.spliced o data) :=
  ⟨⟨rfl, rfl⟩, fun _ hi => w.spliced_outside (.inr (Nat.le_trans h hi))⟩

/-- What a step of the submitter does to the window stays in the control block. -/
def Configures {α : Type} (m : SubmitM α) : Prop :=
  Moves m fun s s' => SameBeyond s.window s'.window

section Configures

variable {α β : Type}

theorem Configures.bind {m : SubmitM α} {f : α → SubmitM β} (hm : Configures m)
    (hf : ∀ a, Configures (f a)) : Configures (m >>= f) :=
  Moves.bind (fun h h' => h.trans h') hm hf

theorem Configures.modify {g : Submitter → Submitter} (hg : ∀ s, (g s).window = s.window) :
    Configures (modify g) :=
  Moves.modify fun s => hg s ▸ .refl _

theorem Configures.word {offset value : U32} (hin : offset.toNat + 4 ≤ 0x1000) :
    Configures (onWindow (writeU32 offset value)) := by
  intro s
  refine ⟨fun a s' h => ?_, fun e s' h => ?_⟩
  · obtain ⟨w, hw, rfl⟩ := onWindow_ok h
    rw [writeU32_within (Nat.le_trans hin (by decide)) hw]
    exact .spliced s.window hin
  · obtain ⟨w, hw, rfl⟩ := onWindow_error h
    -- an access out of range is refused before the write
    rcases run_bind_error hw with habs | ⟨abs, v, -, hrest⟩
    · exact absoluteOffset_error habs ▸ .refl _
    · cases hrest

theorem Configures.read (offset : U32) : Configures (onWindow (readU32 offset)) := by
  intro s
  have hsame : ∀ w', (∃ v, readU32 offset s.window = .ok v w') ∨
      (∃ e, readU32 offset s.window = .error e w') → w' = s.window := by
    rintro w' (⟨v, h⟩ | ⟨e, h⟩)
    · obtain ⟨abs, t, habs, h⟩ := run_bind_ok h
      cases h
      exact (absoluteOffset_ok habs).1
    · rcases run_bind_error h with habs | ⟨abs, v, -, hrest⟩
      · exact absoluteOffset_error habs
      · cases hrest
  refine ⟨fun a s' h => ?_, fun e s' h => ?_⟩
  · obtain ⟨w, hw, rfl⟩ := onWindow_ok h
    exact hsame w (.inl ⟨a, hw⟩) ▸ .refl _
  · obtain ⟨w, hw, rfl⟩ := onWindow_error h
    exact hsame w (.inr ⟨e, hw⟩) ▸ .refl _

theorem overrideCqSize_configures (image : GraphImage) : Configures (overrideCqSize image) :=
  Moves.ite (fun _ => Moves.pure (fun _ => .refl _) _) fun _ =>
    Moves.ite (fun _ => Moves.throw (fun _ => .refl _) _) fun _ =>
      Configures.bind (.modify fun _ => rfl) fun _ => .word (by decide)

theorem configureTrace_configures (image : GraphImage) : Configures (configureTrace image) :=
  Moves.ite (fun _ => Moves.throw (fun _ => .refl _) _) fun _ =>
    Configures.bind (.word (by decide)) fun _ => Configures.bind (.word (by decide)) fun _ =>
      Configures.bind (.word (by decide)) fun _ => Configures.bind (.word (by decide)) fun _ =>
        .modify fun _ => rfl

theorem configure_configures (image : GraphImage) : Configures (configure image) :=
  Configures.bind (.modify fun _ => rfl) fun _ => Configures.bind (.read _) fun _ =>
    Configures.bind (.word (by decide)) fun _ =>
    Configures.bind (overrideCqSize_configures image) fun _ =>
    Configures.bind (configureTrace_configures image) fun _ => Moves.pure (fun _ => .refl _) _

end Configures

/-- A published submission: the three steps, and then only words of the control block. -/
theorem publish_ok {image : GraphImage} {fw : Firmware} {s s' : Submitter} {want : U32}
    (h : publish image fw s = .ok want s') :
    ∃ s₀ w₁ w₂ w₃, prepare image fw s = .ok () s₀ ∧ Steps image s₀.window w₁ w₂ w₃ ∧
      SameBeyond w₃ s'.window := by
  obtain ⟨_, s₀, hadmit, hafter⟩ := run_bind_ok h
  obtain ⟨wantSeq, t, hstage, hring⟩ := run_bind_ok hafter
  obtain ⟨_, t₁, hargs, hstage₁⟩ := run_bind_ok hstage
  obtain ⟨w₁, hargs', rfl⟩ := onWindow_ok hargs
  obtain ⟨_, t₂, hclears, hstage₂⟩ := run_bind_ok hstage₁
  obtain ⟨w₂, hclears', rfl⟩ := onWindow_ok hclears
  obtain ⟨_, t₃, hnodes, hstage₃⟩ := run_bind_ok hstage₂
  obtain ⟨w₃, hnodes', rfl⟩ := onWindow_ok hnodes
  refine ⟨s₀, w₁, w₂, w₃, hadmit, ⟨hargs', hclears', hnodes'⟩, ?_⟩
  obtain ⟨_, t₄, hring', hreturn⟩ := run_bind_ok hring
  cases hreturn
  have htail := (configure_configures image { s₀ with window := w₃ }).1 _ _ hstage₃
  exact SameBeyond.trans htail ((Configures.word (by decide) t).1 _ _ hring')

/-! ## Sizes -/

theorem bytesOf_length (words : List U32) : (bytesOf words).length = 4 * words.length := by
  induction words with
  | nil => rfl
  | cons v words ih =>
    change (wordBytes v ++ bytesOf words).length = _
    rw [length_append, ih, length_cons]
    change 4 + _ = _
    omega

theorem GraphImage.argBytes_length (image : GraphImage) :
    image.argBytes.length = 4 * image.argBuf.length := bytesOf_length _

theorem GraphImage.nodeBytes_length (image : GraphImage) :
    image.nodeBytes.length = 64 * image.nodes.length := by
  have hwords : ∀ nodes : List Packet, (nodes.flatMap Packet.words).length = 16 * nodes.length := by
    intro nodes
    induction nodes with
    | nil => rfl
    | cons p nodes ih =>
      rw [flatMap_cons, length_append, ih, p.length, length_cons]
      omega
  rw [nodeBytes, bytesOf_length, hwords]
  omega

theorem GraphImage.slots_lt {image : GraphImage} (h : image.malformed = none) :
    ∀ slot ∈ image.clearSignalSlots, slot.toNat < Rp1.maxSignals := by
  unfold malformed at h
  split at h
  · cases h
  · split at h
    · cases h
    · have hslots := (Option.or_eq_none_iff.mp h).2
      rw [Option.map_eq_none_iff, List.find?_eq_none] at hslots
      intro slot hslot
      have := hslots slot hslot
      simpa using this

/-! ## The three steps -/

def InSlots (slots : List U32) (o : Nat) : Prop :=
  ∃ slot ∈ slots, signals.start + 16 * slot.toNat ≤ o ∧
    o < signals.start + 16 * slot.toNat + 16

theorem clearAll_ok : ∀ {slots : List U32} {w w' : Window},
    (∀ slot ∈ slots, slot.toNat < Rp1.maxSignals) → slots.forM clearSignal w = .ok () w' →
    SameMapping w w' ∧ (∀ o, InSlots slots o → w'.byte o = 0) ∧
      ∀ o, ¬ InSlots slots o → w'.byte o = w.byte o
  | [], w, w', _, h => by
    cases h
    refine ⟨.refl w, fun o ho => ?_, fun _ _ => rfl⟩
    obtain ⟨_, hmem, -⟩ := ho
    cases hmem
  | slot :: slots, w, w', hlt, h => by
    have hslot : slot.toNat < 256 := hlt slot mem_cons_self
    have hstart : signals.start = 0x151000 := rfl
    have hoffset : (Rp1.defaultSigArrayOffset + slot * 16).toNat =
        signals.start + 16 * slot.toNat := by
      have hmul : (slot * 16#32).toNat = 16 * slot.toNat := by
        rw [BitVec.toNat_mul]
        exact (Nat.mod_eq_of_lt (by change slot.toNat * 16 < 2 ^ 32; omega)).trans
          (Nat.mul_comm _ _)
      rw [BitVec.toNat_add]
      change (0x151000 + (slot * 16#32).toNat) % 2 ^ 32 = _
      rw [hmul, hstart, Nat.mod_eq_of_lt (by omega)]
    obtain ⟨_, w₁, hfirst, hrest⟩ := run_bind_ok (m := clearSignal slot) h
    have hw₁ : w₁ = w.spliced (signals.start + 16 * slot.toNat) (List.replicate 16 0) := by
      rw [← hoffset]
      refine writeAt_within ?_ hfirst
      rw [hoffset, hstart, length_replicate, windowSize]
      omega
    obtain ⟨hsame, hzero, hkeep⟩ := clearAll_ok
      (fun x hx => hlt x (mem_cons_of_mem _ hx)) hrest
    rw [hw₁] at hsame hkeep
    refine ⟨⟨hsame.mappedLength, hsame.windowOffset⟩, fun o ho => ?_, fun o ho => ?_⟩
    · by_cases hlater : InSlots slots o
      · exact hzero o hlater
      · obtain ⟨x, hx, hlo, hhi⟩ := ho
        rcases mem_cons.mp hx with rfl | hx
        · obtain ⟨k, rfl⟩ := Nat.exists_eq_add_of_le hlo
          have hk : k < (List.replicate 16 (0 : U8)).length := by
            rw [length_replicate]
            omega
          rw [hkeep _ hlater, w.spliced_inside _ _ hk, getElem_replicate]
        · exact absurd ⟨x, hx, hlo, hhi⟩ hlater
    · have hlater : ¬ InSlots slots o := fun h => by
        obtain ⟨x, hx, hin⟩ := h
        exact ho ⟨x, mem_cons_of_mem _ hx, hin⟩
      have hown : o < signals.start + 16 * slot.toNat ∨
          signals.start + 16 * slot.toNat + 16 ≤ o := by
        by_contra hnot
        exact ho ⟨slot, mem_cons_self, by omega, by omega⟩
      rw [hkeep o hlater, w.spliced_outside (by rwa [length_replicate])]

/-- A step leaves the other regions as they were. -/
def LeavesOthers (r : Region) (w w' : Window) : Prop :=
  ∀ r' ≠ r, ∀ o, r'.Has o → w'.byte o = w.byte o

theorem Region.apart {r r' : Region} (hne : r' ≠ r) {o : Nat} (h : r'.Has o) :
    o < r.start ∨ r.start + r.size ≤ o := by
  obtain ⟨hlo, hhi⟩ := h
  cases r <;> cases r' <;> first
    | exact absurd rfl hne
    | (simp only [start, size, Rp1.defaultNodeArrayOffset, Rp1.defaultCqOffset,
        Rp1.defaultArgBufOffset, Rp1.defaultSigArrayOffset, Rp1.defaultTraceOffset, Rp1.maxNodes,
        Rp1.maxCqEntries, Rp1.maxSignals, Rp1.maxTraceEntries, BitVec.toNat_ofNat] at hlo hhi ⊢
       omega)

theorem LeavesOthers.spliced (r : Region) (w : Window) {data : List U8}
    (h : data.length ≤ r.size) : LeavesOthers r w (w.spliced r.start data) := by
  intro r' hne o ho
  refine w.spliced_outside ?_
  have := apart hne ho
  omega

/-- What a faithful submission staged: each step in its own region, and at the doorbell the whole
image in the window. -/
structure Faithful (image : GraphImage) (w₀ w₁ w₂ w₃ w' : Window) : Prop where
  steps : Steps image w₀ w₁ w₂ w₃
  argsApart : LeavesOthers .args w₀ w₁
  clearsApart : LeavesOthers .signals w₁ w₂
  nodesApart : LeavesOthers .nodes w₂ w₃
  nodes : ∀ k (hk : k < image.nodeBytes.length),
    w'.byte (Region.nodes.start + k) = image.nodeBytes[k]
  args : ∀ k (hk : k < image.argBytes.length),
    w'.byte (Region.args.start + k) = image.argBytes[k]
  slots : ∀ o, InSlots image.clearSignalSlots o → w'.byte o = 0

/-- Every submission of the image that is published is faithful. -/
def StagedFaithfully (image : GraphImage) : Prop :=
  ∀ fw s want s', publish image fw s = .ok want s' →
    ∃ s₀ w₁ w₂ w₃, prepare image fw s = .ok () s₀ ∧
      Faithful image s₀.window w₁ w₂ w₃ s'.window

theorem InSlots.has {slots : List U32} (hlt : ∀ slot ∈ slots, slot.toNat < Rp1.maxSignals)
    {o : Nat} (h : InSlots slots o) : signals.Has o := by
  obtain ⟨slot, hslot, hlo, hhi⟩ := h
  have hbound : slot.toNat < 256 := hlt slot hslot
  have hsize : signals.size = 4096 := rfl
  refine ⟨?_, ?_⟩
  · omega
  · omega

section Fits

variable {image : GraphImage} {w₀ w₁ w₂ w₃ w' : Window}

theorem Steps.args_eq (h : Steps image w₀ w₁ w₂ w₃) (hfits : image.argBuf.length ≤ 0x40000) :
    w₁ = w₀.spliced Region.args.start image.argBytes := by
  refine writeAt_within ?_ h.args
  have hstart : Rp1.defaultArgBufOffset.toNat = 0x51000 := rfl
  rw [hstart, argBytes_length, windowSize]
  omega

theorem Steps.nodes_eq (h : Steps image w₀ w₁ w₂ w₃) (hok : image.malformed = none) :
    w₃ = w₂.spliced Region.nodes.start image.nodeBytes := by
  refine writeAt_within ?_ h.nodes
  have hle : image.nodes.length ≤ 4096 := (nodes_length hok).2
  have hstart : Rp1.defaultNodeArrayOffset.toNat = 0x1000 := rfl
  rw [hstart, nodeBytes_length, windowSize]
  omega

theorem Steps.faithful (h : Steps image w₀ w₁ w₂ w₃) (hok : image.malformed = none)
    (hfits : image.argBuf.length ≤ 0x40000) (hbeyond : SameBeyond w₃ w') :
    Faithful image w₀ w₁ w₂ w₃ w' := by
  have hslots := slots_lt hok
  have hlen : image.nodeBytes.length ≤ Region.nodes.size := by
    have hle : image.nodes.length ≤ 4096 := (nodes_length hok).2
    have hsize : Region.nodes.size = 0x40000 := rfl
    rw [nodeBytes_length, hsize]
    omega
  have halen : image.argBytes.length ≤ Region.args.size := by
    have hsize : Region.args.size = 0x100000 := rfl
    rw [argBytes_length, hsize]
    omega
  obtain ⟨-, hzero, hkeep⟩ := clearAll_ok hslots h.clears
  have hargsApart : LeavesOthers .args w₀ w₁ := h.args_eq hfits ▸ .spliced .args w₀ halen
  have hnodesApart : LeavesOthers .nodes w₂ w₃ := h.nodes_eq hok ▸ .spliced .nodes w₂ hlen
  have hclearsApart : LeavesOthers .signals w₁ w₂ := by
    intro r hne o ho
    refine hkeep o fun hin => ?_
    have hsig := hin.has hslots
    have := apart hne ho
    have := hsig.1
    have := hsig.2
    omega
  -- past the control block the doorbell changes nothing
  have hfinal : ∀ (r : Region) o, r.Has o → w'.byte o = w₃.byte o := by
    intro r o ho
    refine hbeyond.bytes o (Nat.le_trans ?_ ho.1)
    cases r <;> decide
  refine ⟨h, hargsApart, hclearsApart, hnodesApart, fun k hk => ?_, fun k hk => ?_, fun o ho => ?_⟩
  · rw [hfinal .nodes _ ⟨by omega, by omega⟩, h.nodes_eq hok, Window.spliced_inside _ _ _ hk]
  · have hhas : Region.args.Has (Region.args.start + k) := ⟨by omega, by omega⟩
    rw [hfinal .args _ hhas, hnodesApart .args (by decide) _ hhas,
      hclearsApart .args (by decide) _ hhas, h.args_eq hfits, Window.spliced_inside _ _ _ hk]
  · have hhas := ho.has hslots
    rw [hfinal .signals _ hhas, hnodesApart .signals (by decide) _ hhas, hzero o ho]

end Fits

/-! ## Which images are published -/

theorem overrideCqSize_ok {image : GraphImage} {s t : Submitter}
    (h : overrideCqSize image s = .ok () t) : image.cqSizeOk = true := by
  rw [cqSizeOk, Bool.or_eq_true, beq_iff_eq]
  by_cases hzero : image.cqSizeOverride = 0
  · exact .inl hzero
  · rw [overrideCqSize, if_neg hzero] at h
    split at h
    · cases h
    · rename_i hvalid
      exact .inr (not_not.mp hvalid)

theorem configureTrace_ok {image : GraphImage} {s t : Submitter}
    (h : configureTrace image s = .ok () t) : image.traceSizeOk = true := by
  rw [configureTrace] at h
  split at h
  · cases h
  · rename_i htrace
    exact Bool.not_eq_false _ ▸ htrace

theorem publish_sizes {image : GraphImage} {fw : Firmware} {s s' : Submitter} {want : U32}
    (h : publish image fw s = .ok want s') :
    image.cqSizeOk = true ∧ image.traceSizeOk = true := by
  obtain ⟨_, s₀, -, hafter⟩ := run_bind_ok h
  obtain ⟨_, t, hstage, -⟩ := run_bind_ok hafter
  obtain ⟨_, t₁, -, hstage₁⟩ := run_bind_ok hstage
  obtain ⟨_, t₂, -, hstage₂⟩ := run_bind_ok hstage₁
  obtain ⟨_, t₃, -, hconfigure⟩ := run_bind_ok hstage₂
  obtain ⟨_, t₄, -, hconfigure₁⟩ := run_bind_ok hconfigure
  obtain ⟨_, t₅, -, hconfigure₂⟩ := run_bind_ok hconfigure₁
  obtain ⟨_, t₆, -, hconfigure₃⟩ := run_bind_ok hconfigure₂
  obtain ⟨_, t₇, hcq, hconfigure₄⟩ := run_bind_ok hconfigure₃
  obtain ⟨_, t₈, htrace, -⟩ := run_bind_ok hconfigure₄
  exact ⟨overrideCqSize_ok hcq, configureTrace_ok htrace⟩

section Idle

variable {image : GraphImage} {s : Submitter}

theorem overrideCqSize_roomy (image : GraphImage) (hroom : s.window.Roomy) (hcq : image.cqSizeOk = true) :
    ∃ t, overrideCqSize image s = .ok () t ∧ t.window.Roomy := by
  rw [overrideCqSize]
  by_cases hzero : image.cqSizeOverride = 0
  · rw [if_pos hzero]
    exact ⟨s, rfl, hroom⟩
  · simp only [cqSizeOk, Bool.or_eq_true, beq_iff_eq] at hcq
    rw [if_neg hzero, if_neg (not_not.mpr (hcq.resolve_left hzero)), run_modify_bind]
    exact ⟨_, onWindow_eq (writeU32_eq hroom _ (by decide)), hroom⟩

theorem word_roomy (offset : U32) (hroom : s.window.Roomy) (value : U32)
    (hin : offset.toNat + 4 ≤ windowSize) :
    ∃ t, onWindow (writeU32 offset value) s = .ok () t ∧ t.window.Roomy :=
  ⟨_, writeU32_on hroom value hin, hroom⟩

theorem configureTrace_roomy (hroom : s.window.Roomy) (htrace : image.traceSizeOk = true) :
    ∃ t, configureTrace image s = .ok () t ∧ t.window.Roomy := by
  obtain ⟨t₁, h₁, hroom₁⟩ := word_roomy ctrlTraceBaseLo hroom
    (Rp1.ctrlPhysAddr + Rp1.defaultTraceOffset) (by decide)
  obtain ⟨t₂, h₂, hroom₂⟩ := word_roomy ctrlTraceBaseHi hroom₁ 0 (by decide)
  obtain ⟨t₃, h₃, hroom₃⟩ := word_roomy ctrlTraceSize hroom₂ image.traceSize
    (by decide)
  obtain ⟨t₄, h₄, hroom₄⟩ := word_roomy ctrlTraceEnable hroom₃
    (if image.traceEnable then 1 else 0) (by decide)
  rw [configureTrace, htrace, if_neg (by decide), run_bind_of_ok h₁, run_bind_of_ok h₂,
    run_bind_of_ok h₃, run_bind_of_ok h₄]
  exact ⟨_, rfl, hroom₄⟩

/-- Over a roomy window an idle firmware publishes every image without a defect. -/
theorem publish_idle (hroom : s.window.Roomy) (hready : s.ready = true) (hcursor : s.cqCursor = 0)
    (hok : image.malformed = none) (hcq : image.cqSizeOk = true)
    (htrace : image.traceSizeOk = true) :
    ∃ want s', publish image idleFirmware s = .ok want s' := by
  obtain ⟨u, hadmit, hwindow, -⟩ := admit_idle image hroom hready hcursor hok
  have huroom : u.window.Roomy := hwindow ▸ hroom
  obtain ⟨w₁, w₂, w₃, hsteps, hroom₃⟩ := steps_roomy image huroom
  obtain ⟨seq, hstage⟩ := stage_upTo hsteps hroom₃
  obtain ⟨t₁, hoverride, hroom₄⟩ := overrideCqSize_roomy image
    (s := { u with
      window := w₃.spliced ctrlNodeCount.toNat (wordBytes (BitVec.ofNat 32 image.nodes.length))
      lastCqStart := u.cqCursor }) hroom₃ hcq
  obtain ⟨t₂, hconfigure, hroom₅⟩ := configureTrace_roomy hroom₄ htrace
  rw [run_bind_of_ok hoverride, run_bind_of_ok hconfigure] at hstage
  rw [publish, run_bind_of_ok hadmit, run_bind_of_ok (hstage.trans rfl),
    run_bind_of_ok (writeU32_on hroom₅ _ (by decide))]
  exact ⟨_, _, rfl⟩

end Idle

/-- A window of zeros, but for the first byte of the signal array. -/
def marked (b : U8) : Nat → U8 := fun i => if i = 0x151000 then b else 0

theorem roomyWindow_byte (bytes : Nat → U8) (o : Nat) : (roomyWindow bytes).byte o = bytes o :=
  congrArg bytes (Nat.zero_add o)

/-- With more argument words than fit the megabyte, the staging of the arguments decides what the
first signal byte is, whatever it was before. -/
theorem long_arguments_spill {image : GraphImage} (hlong : 0x40000 < image.argBuf.length)
    (hok : image.malformed = none) (hcq : image.cqSizeOk = true)
    (htrace : image.traceSizeOk = true) : ¬ StagedFaithfully image := by
  intro hall
  -- the step of the arguments, over a window whose first signal byte is `b`
  have hargs : ∀ b : U8, ∃ w₁,
      stageArgs image ((roomyWindow (marked b)).spliced ctrlCqReadIdx.toNat (wordBytes 0)) =
        .ok () w₁ ∧ w₁.byte 0x151000 = b := by
    intro b
    obtain ⟨want, s', hpublish⟩ := publish_idle (s := readySubmitter (marked b))
      (roomyWindow_roomy _) rfl rfl hok hcq htrace
    obtain ⟨s₀, w₁, w₂, w₃, hadmit, hfaithful⟩ := hall _ _ _ _ hpublish
    obtain ⟨u, hadmit', hwindow, -⟩ := admit_idle image
      (s := readySubmitter (marked b)) (roomyWindow_roomy _) rfl rfl hok
    rw [hadmit'] at hadmit
    cases hadmit
    refine ⟨w₁, ?_, ?_⟩
    · rw [← hfaithful.steps.args, hwindow]
      rfl
    · rw [hfaithful.argsApart .signals (by decide) 0x151000 (by decide), hwindow,
        Window.spliced_outside _ (.inr (by decide))]
      exact (roomyWindow_byte _ _).trans (if_pos rfl)
  obtain ⟨w₁, hw₁, hbyte₁⟩ := hargs 0
  obtain ⟨w₂, hw₂, hbyte₂⟩ := hargs 1
  have hsame : w₁ = w₂ := by
    refine writeAt_second_piece (by decide) ?_ (fun i hi => ?_) hw₁ hw₂
    · rw [argBytes_length, chunkSize]
      omega
    · have hmark : marked 1 i = marked 0 i := by
        have hne : i ≠ 0x151000 := hi
        rw [marked, marked, if_neg hne, if_neg hne]
      simp only [Window.spliced, Window.put, splice, roomyWindow, hmark]
  rw [hsame, hbyte₂] at hbyte₁
  cases hbyte₁

/-- Every submission of an image that is published is faithful, exactly if the argument words fit
the megabyte before the signal array, or the image has a defect and is never published. -/
theorem staging_faithful (image : GraphImage) :
    StagedFaithfully image ↔ image.argBuf.length ≤ 0x40000 ∨ image.malformed.isSome = true ∨
      ¬ (image.cqSizeOk = true ∧ image.traceSizeOk = true) := by
  constructor
  · intro hall
    by_contra hnot
    rw [not_or, not_or, not_not, Bool.not_eq_true, Option.isSome_eq_false_iff,
      Option.isNone_iff_eq_none, Nat.not_le] at hnot
    obtain ⟨hlong, hok, hcq, htrace⟩ := hnot
    exact long_arguments_spill hlong hok hcq htrace hall
  · intro hcond fw s want s' h
    obtain ⟨s₀, w₁, w₂, w₃, hadmit, hsteps, hbeyond⟩ := publish_ok h
    have hok := prepare_ok hadmit
    refine ⟨s₀, w₁, w₂, w₃, hadmit, hsteps.faithful hok ?_ hbeyond⟩
    rcases hcond with hfits | hmalformed | hsizes
    · exact hfits
    · rw [hok] at hmalformed
      cases hmalformed
    · exact absurd (publish_sizes h) hsizes

/-- One NOP, and one word more than the argument buffer holds. -/
def manyArguments : GraphImage where
  nodes := [⟨List.replicate 16 0#32, rfl⟩]
  argBuf := List.replicate 0x40001 1#32
  clearSignalSlots := []

/-- The image has no defect, is published, and its last argument word lands in the signal array. -/
theorem many_arguments_spill :
    manyArguments.malformed = none ∧ ¬ StagedFaithfully manyArguments := by
  refine ⟨rfl, long_arguments_spill ?_ rfl rfl rfl⟩
  rw [manyArguments, length_replicate]
  decide

end Slash.Submit
