import Slash.Submit.Submitter

/-!
# What a submission leaves in the window

Two questions about `submitAndWait`. A submission that is rejected for its image should not have
touched the shared storage; it has, when the defect is in one of the two ring sizes, which are
looked at after everything is staged. A submission that is published should have staged the image
and nothing else; it has, as long as the argument words fit between the argument base and the
signal array, which nothing checks.
-/

namespace Slash.Submit

open Lib
open Rp1 (U8 U16 U32)

/-! ## Errors that are not about the image -/

/-- The fault is not a defect of the image. -/
def Fault.Foreign : Fault → Prop
  | .image _ => False
  | _ => True

theorem onWindow_ok {α : Type} {m : WindowM α} {s s' : Submitter} {a : α}
    (h : onWindow m s = .ok a s') :
    ∃ w, m s.window = .ok a w ∧ s' = { s with window := w } := by
  unfold onWindow at h
  cases hm : m s.window with
  | ok b w =>
    rw [hm] at h
    cases h
    exact ⟨w, rfl, rfl⟩
  | error e w =>
    rw [hm] at h
    cases h

theorem onWindow_error {α : Type} {m : WindowM α} {s s' : Submitter} {e : Fault}
    (h : onWindow m s = .error e s') :
    ∃ w, m s.window = .error e w ∧ s' = { s with window := w } := by
  unfold onWindow at h
  cases hm : m s.window with
  | ok b w =>
    rw [hm] at h
    cases h
  | error e' w =>
    rw [hm] at h
    cases h
    exact ⟨w, rfl, rfl⟩

theorem onWindow_eq {α : Type} {m : WindowM α} {s : Submitter} {a : α} {w : Window}
    (h : m s.window = .ok a w) : onWindow m s = .ok a { s with window := w } := by
  rw [onWindow, h]

theorem onWindow_throws {α : Type} {m : WindowM α} {E : Fault → Prop} (h : Throws m E) :
    Throws (onWindow m) E := by
  intro s e s' hs
  obtain ⟨w, hw, -⟩ := onWindow_error hs
  exact h _ _ _ hw

theorem absoluteOffset_foreign (offset : U32) (n : Nat) :
    Throws (absoluteOffset offset n) Fault.Foreign :=
  .bind .get fun _ => .ite (fun _ => .throw trivial) fun _ => .pure _

theorem writeChunks_foreign : ∀ (fuel : Nat) (offset : U32) (data : List U8),
    Throws (writeChunks fuel offset data) Fault.Foreign
  | 0, _, _ => .pure _
  | fuel + 1, _, _ => by
    unfold writeChunks
    exact .ite (fun _ => .pure _) fun _ => .bind (absoluteOffset_foreign _ _) fun _ =>
      .bind .modify fun _ => writeChunks_foreign fuel _ _

theorem writeAt_foreign (offset : U32) (data : List U8) :
    Throws (writeAt offset data) Fault.Foreign :=
  writeChunks_foreign data.length offset data

theorem writeU32_foreign (offset value : U32) : Throws (writeU32 offset value) Fault.Foreign :=
  .bind (absoluteOffset_foreign _ _) fun _ => .modify

theorem readU32_foreign (offset : U32) : Throws (readU32 offset) Fault.Foreign :=
  .bind (absoluteOffset_foreign _ _) fun _ => .bind .get fun _ => .pure _

theorem await_foreign (w : Waited) : Throws (await w) Fault.Foreign := by
  cases w with
  | reached => exact .pure _
  | late what => exact .throw trivial
  | terminal state graphSeq => exact .throw trivial

theorem requireUsable_foreign : Throws requireUsable Fault.Foreign :=
  .bind .get fun _ => .ite (fun _ => .throw trivial) fun _ => .pure _

variable (fw : Firmware)

theorem requireFirmwareContract_foreign :
    Throws (requireFirmwareContract fw) Fault.Foreign :=
  .ite (fun _ => .throw trivial) fun _ => .ite (fun _ => .throw trivial) fun _ =>
    .ite (fun _ => .throw trivial) fun _ => .pure _

theorem handshake_foreign : Throws (handshake fw) Fault.Foreign :=
  .bind (await_foreign _) fun _ => .bind (await_foreign _) fun _ =>
    .bind (requireFirmwareContract_foreign fw) fun _ => .bind .get fun _ =>
    .bind (onWindow_throws (.forM _ fun _ _ => writeU32_foreign _ _)) fun _ =>
    .bind .modify fun _ => .bind (onWindow_throws (writeU32_foreign _ _)) fun _ =>
    .bind .modify fun _ => .bind (onWindow_throws (readU32_foreign _)) fun _ => .modify

theorem ensureReady_foreign : Throws (ensureReady fw) Fault.Foreign :=
  .bind requireUsable_foreign fun _ => .bind .get fun _ =>
    .ite (fun _ => requireFirmwareContract_foreign fw) fun _ =>
      .bind .modify fun _ => handshake_foreign fw

theorem handshakeOnce_foreign : Throws (handshakeOnce fw) Fault.Foreign :=
  .bind .get fun _ => .ite (fun _ => .pure _) fun _ => ensureReady_foreign fw

theorem preflight_foreign : Throws (preflight fw) Fault.Foreign :=
  .ite (fun _ => .pure _) fun _ => .ite
    (fun _ => .bind (onWindow_throws (readU32_foreign _)) fun _ => .throw trivial)
    fun _ => .throw trivial

theorem retireCq_foreign : Throws (retireCq fw) Fault.Foreign :=
  .bind
    (.bind .get fun _ => .ite (fun _ => .throw trivial) fun _ => .bind .modify fun _ =>
      .bind (onWindow_throws (writeU32_foreign _ _)) fun _ => .modify)
    fun _ => .modify

theorem finish_foreign : Throws (finish fw) Fault.Foreign := by
  unfold finish
  split
  · exact .pure _
  · exact .bind .modify fun _ => .throw trivial
  · exact .throw trivial
  · exact .throw trivial

theorem claim_foreign : Throws claim Fault.Foreign :=
  .bind .get fun _ => .ite (fun _ => .throw trivial) fun _ => .modify

/-- The ring sizes are the only defects that staging finds. -/
theorem stage_foreign {image : GraphImage} (hcq : image.cqSizeOk = true)
    (htrace : image.traceSizeOk = true) : Throws (stage image) Fault.Foreign := by
  have hoverride : Throws (overrideCqSize image) Fault.Foreign := by
    refine .ite (fun _ => .pure _) fun hne => .ite (fun hbad => ?_) fun _ =>
      .bind .modify fun _ => onWindow_throws (writeU32_foreign _ _)
    simp only [GraphImage.cqSizeOk, Bool.or_eq_true, beq_iff_eq] at hcq
    exact absurd (hcq.resolve_left hne) hbad
  have hconfigure : Throws (configureTrace image) Fault.Foreign := by
    refine .ite (fun hbad => ?_) fun _ => .bind (onWindow_throws (writeU32_foreign _ _)) fun _ =>
      .bind (onWindow_throws (writeU32_foreign _ _)) fun _ =>
      .bind (onWindow_throws (writeU32_foreign _ _)) fun _ =>
      .bind (onWindow_throws (writeU32_foreign _ _)) fun _ => .modify
    rw [htrace] at hbad
    cases hbad
  exact .bind (onWindow_throws (writeAt_foreign _ _)) fun _ =>
    .bind (onWindow_throws (.forM _ fun _ _ => writeAt_foreign _ _)) fun _ =>
    .bind (onWindow_throws (writeAt_foreign _ _)) fun _ => .bind .modify fun _ =>
    .bind (onWindow_throws (readU32_foreign _)) fun _ =>
    .bind (onWindow_throws (writeU32_foreign _ _)) fun _ => .bind hoverride fun _ =>
    .bind hconfigure fun _ => .pure _

/-! ## Regions -/

/-- The regions of the default layout. -/
inductive Region where
  | nodes | cq | args | signals | trace
  deriving DecidableEq, Repr

/-- `RP1_DEFAULT_*_OFFSET`. -/
def Region.start : Region → Nat
  | .nodes => Rp1.defaultNodeArrayOffset.toNat
  | .cq => Rp1.defaultCqOffset.toNat
  | .args => Rp1.defaultArgBufOffset.toNat
  | .signals => Rp1.defaultSigArrayOffset.toNat
  | .trace => Rp1.defaultTraceOffset.toNat

/-- The size of a region: what the protocol's limits can fill, and one megabyte of arguments. -/
def Region.size : Region → Nat
  | .nodes => Rp1.maxNodes * 64
  | .cq => Rp1.maxCqEntries * 16
  | .args => 0x100000
  | .signals => Rp1.maxSignals * 16
  | .trace => Rp1.maxTraceEntries * 16

def Region.Has (r : Region) (o : Nat) : Prop := r.start ≤ o ∧ o < r.start + r.size

instance (r : Region) (o : Nat) : Decidable (r.Has o) := inferInstanceAs (Decidable (_ ∧ _))

/-! ## A rejected image -/

/-- The shared storage of a graph and the ring size of the submitter are as before. -/
structure Untouched (s s' : Submitter) : Prop where
  storage : ∀ r ∈ [Region.nodes, .args, .signals], ∀ o, r.Has o →
    s'.window.byte o = s.window.byte o
  nodeCount : ∀ k < 4, s'.window.byte (ctrlNodeCount.toNat + k) =
    s.window.byte (ctrlNodeCount.toNat + k)
  cqSizeWord : ∀ k < 4, s'.window.byte (ctrlCqSize.toNat + k) =
    s.window.byte (ctrlCqSize.toNat + k)
  cqSize : s'.cqSize = s.cqSize

theorem Untouched.of_eq {s s' : Submitter} (hw : s'.window = s.window)
    (hcq : s'.cqSize = s.cqSize) : Untouched s s' :=
  ⟨fun _ _ _ _ => by rw [hw], fun _ _ => by rw [hw], fun _ _ => by rw [hw], hcq⟩

section Rejected

variable {image : GraphImage} {fw : Firmware} {s s' t : Submitter} {what : String}

theorem Throws.not_image {α : Type} {m : SubmitM α} (h : Throws m Fault.Foreign) :
    m s ≠ .error (.image what) s' :=
  fun hm => h _ _ _ hm

theorem requireUsable_ok (h : requireUsable s = .ok () t) : t = s := by
  rw [requireUsable, run_get_bind] at h
  split at h
  · cases h
  · cases h
    rfl

theorem claim_ok (h : claim s = .ok () t) : t = { s with submissionActive := true } := by
  rw [claim, run_get_bind] at h
  split at h
  · cases h
  · cases h
    rfl

/-- A submission rejected for its image is rejected before the doorbell. -/
theorem submitAndWait_rejected (h : submitAndWait image fw s = .error (.image what) s') :
    ∃ t, publish image fw { s with submissionActive := true } = .error (.image what) t ∧
      s' = { t with submissionActive := false } := by
  rcases run_bind_error h with herror | ⟨_, t, husable, hclaimed⟩
  · exact absurd herror (Throws.not_image requireUsable_foreign)
  rw [requireUsable_ok husable] at hclaimed
  rcases run_bind_error hclaimed with herror | ⟨_, u, hclaim, hscope⟩
  · exact absurd herror (Throws.not_image claim_foreign)
  rw [claim_ok hclaim, releasing] at hscope
  split at hscope
  · cases hscope
  · rename_i e t' hinner
    cases hscope
    rcases run_bind_error hinner with hpublish | ⟨want, u, -, hrest⟩
    · exact ⟨t', hpublish, rfl⟩
    · exact absurd hrest (Throws.not_image (.bind .modify fun _ => finish_foreign fw))

theorem checkImage_error (h : checkImage image s = .error (.image what) t) :
    image.malformed = some what ∧ t = s := by
  unfold checkImage at h
  cases hm : image.malformed with
  | none =>
    rw [hm] at h
    cases h
  | some reason =>
    rw [hm] at h
    cases h
    exact ⟨rfl, rfl⟩

/-- Phase 1 rejects, or staging does. -/
theorem publish_rejected (h : publish image fw s = .error (.image what) t) :
    (image.malformed = some what ∧ t = s) ∨
      ∃ u, prepare image fw s = .ok () u ∧ stage image u = .error (.image what) t := by
  rcases run_bind_error h with hadmit | ⟨_, u, hadmit, h⟩
  · left
    rcases run_bind_error hadmit with hcheck | ⟨_, u, -, hrest⟩
    · exact checkImage_error hcheck
    · exact absurd hrest (Throws.not_image (.bind (handshakeOnce_foreign fw) fun _ =>
        .bind (preflight_foreign fw) fun _ => retireCq_foreign fw))
  · right
    rcases run_bind_error h with hstage | ⟨want, v, -, hrest⟩
    · exact ⟨u, hadmit, hstage⟩
    · exact absurd hrest (Throws.not_image (.bind (onWindow_throws (writeU32_foreign _ _))
        fun _ => .pure _))

/-- A malformed image is never admitted. -/
theorem prepare_ok (h : prepare image fw s = .ok () t) : image.malformed = none := by
  obtain ⟨_, u, hcheck, -⟩ := run_bind_ok h
  unfold checkImage at hcheck
  cases hm : image.malformed with
  | none => rfl
  | some reason =>
    rw [hm] at hcheck
    cases hcheck

end Rejected

/-! ## A roomy window and a firmware that waits for a graph -/

/-- A firmware that waits for a graph. -/
def idleFirmware : Firmware where
  cqEntry := fun _ => ⟨0, .ok, 0, 0⟩

section Idle

variable {image : GraphImage} {s : Submitter}

theorem writeU32_on {s : Submitter} (hroom : s.window.Roomy) {offset : U32} (value : U32)
    (hin : offset.toNat + 4 ≤ windowSize) :
    onWindow (writeU32 offset value) s =
      .ok () { s with window := s.window.spliced offset.toNat (wordBytes value) } :=
  onWindow_eq (writeU32_eq hroom value hin)

/-- Such a firmware admits every image that is well formed. -/
theorem admit_idle (image : GraphImage) (hroom : s.window.Roomy) (hready : s.ready = true) (hcursor : s.cqCursor = 0)
    (hok : image.malformed = none) :
    ∃ u, prepare image idleFirmware s = .ok () u ∧
      u.window = s.window.spliced ctrlCqReadIdx.toNat (wordBytes 0) ∧ u.cqSize = s.cqSize := by
  have hcheck : checkImage image s = .ok () s := by
    rw [checkImage, hok]
    rfl
  have honce : handshakeOnce idleFirmware s = .ok () s := by
    rw [handshakeOnce, run_get_bind, if_pos hready]
    rfl
  have hpre : preflight idleFirmware s = .ok () s := rfl
  have hdelta : ¬ (idleFirmware.cqWriteIdx - s.cqCursor > s.cqSize) := by
    rw [hcursor, gt_iff_lt, BitVec.not_lt, BitVec.le_def]
    exact Nat.zero_le _
  have hdrain : ∃ u, drainAvailableCq idleFirmware s = .ok () u ∧
      u.window = s.window.spliced ctrlCqReadIdx.toNat (wordBytes 0) ∧ u.cqSize = s.cqSize := by
    rw [drainAvailableCq, run_get_bind, if_neg hdelta, run_modify_bind]
    exact ⟨_, run_bind_of_ok (onWindow_eq (writeU32_eq hroom _ (by decide))), rfl, rfl⟩
  obtain ⟨u, hu, hwindow, hsize⟩ := hdrain
  rw [prepare, run_bind_of_ok hcheck, run_bind_of_ok honce, run_bind_of_ok hpre, retireCq,
    run_bind_of_ok hu]
  exact ⟨_, rfl, hwindow, hsize⟩

theorem readU32_roomy {w : Window} (hroom : w.Roomy) (offset : U32) :
    ∃ v, readU32 offset w = .ok v w := by
  rw [readU32, run_bind_of_ok (absoluteOffset_roomy hroom offset (by decide))]
  exact ⟨_, rfl⟩

theorem clearAll_roomy : ∀ (slots : List U32) {w : Window}, w.Roomy →
    ∃ w', slots.forM clearSignal w = .ok () w' ∧ SameMapping w w'
  | [], w, _ => ⟨w, rfl, .refl w⟩
  | slot :: slots, w, hroom => by
    obtain ⟨w₁, hfirst, hsame⟩ := writeAt_roomy hroom
      (Rp1.defaultSigArrayOffset + slot * 16) (List.replicate 16 0)
    obtain ⟨w₂, hrest, hsame'⟩ := clearAll_roomy slots (hroom.same hsame)
    refine ⟨w₂, ?_, hsame.trans hsame'⟩
    exact (run_bind_of_ok (m := clearSignal slot) hfirst).trans hrest

structure Steps (image : GraphImage) (w₀ w₁ w₂ w₃ : Window) : Prop where
  args : stageArgs image w₀ = .ok () w₁
  clears : clearSlots image w₁ = .ok () w₂
  nodes : stageNodes image w₂ = .ok () w₃

theorem steps_roomy (image : GraphImage) {w₀ : Window} (hroom : w₀.Roomy) :
    ∃ w₁ w₂ w₃, Steps image w₀ w₁ w₂ w₃ ∧ w₃.Roomy := by
  obtain ⟨w₁, hargs, h₁⟩ := writeAt_roomy hroom Rp1.defaultArgBufOffset image.argBytes
  obtain ⟨w₂, hclears, h₂⟩ := clearAll_roomy image.clearSignalSlots (hroom.same h₁)
  obtain ⟨w₃, hnodes, h₃⟩ := writeAt_roomy ((hroom.same h₁).same h₂)
    Rp1.defaultNodeArrayOffset image.nodeBytes
  exact ⟨w₁, w₂, w₃, ⟨hargs, hclears, hnodes⟩, ((hroom.same h₁).same h₂).same h₃⟩

theorem stage_upTo {w₁ w₂ w₃ : Window} (hsteps : Steps image s.window w₁ w₂ w₃)
    (hroom : w₃.Roomy) :
    ∃ seq, stage image s = (do overrideCqSize image; configureTrace image; pure (seq + 1))
      { s with
        window := w₃.spliced ctrlNodeCount.toNat
          (wordBytes (BitVec.ofNat 32 image.nodes.length))
        lastCqStart := s.cqCursor } := by
  obtain ⟨seq, hseq⟩ := readU32_roomy hroom ctrlGraphSeq
  refine ⟨seq, ?_⟩
  rw [stage, run_bind_of_ok (onWindow_eq hsteps.args),
    run_bind_of_ok (onWindow_eq (s := { s with window := w₁ }) hsteps.clears),
    run_bind_of_ok (onWindow_eq (s := { s with window := w₂ }) hsteps.nodes), configure,
    run_modify_bind, run_bind_of_ok (onWindow_eq (s := { s with window := w₃, lastCqStart := s.cqCursor }) hseq),
    run_bind_of_ok (writeU32_on hroom _ (by decide))]

/-- A ring size that is not valid is found when `node_count` is already written. -/
theorem stage_rejects {w₁ w₂ w₃ : Window} (hsteps : Steps image s.window w₁ w₂ w₃)
    (hroom : w₃.Roomy) (hbad : ¬ (image.cqSizeOk = true ∧ image.traceSizeOk = true)) :
    ∃ what t, stage image s = .error (.image what) t ∧
      ∀ k (hk : k < 4), t.window.byte (ctrlNodeCount.toNat + k) =
        (wordBytes (BitVec.ofNat 32 image.nodes.length)).get ⟨k, hk⟩ := by
  obtain ⟨seq, hstage⟩ := stage_upTo hsteps hroom
  rw [hstage]
  generalize hu : ({ s with
    window := w₃.spliced ctrlNodeCount.toNat (wordBytes (BitVec.ofNat 32 image.nodes.length))
    lastCqStart := s.cqCursor } : Submitter) = u
  have hwindow : u.window = w₃.spliced ctrlNodeCount.toNat
      (wordBytes (BitVec.ofNat 32 image.nodes.length)) := by
    rw [← hu]
  have hcount : ∀ k (hk : k < 4), u.window.byte (ctrlNodeCount.toNat + k) =
      (wordBytes (BitVec.ofNat 32 image.nodes.length)).get ⟨k, hk⟩ := by
    intro k hk
    rw [hwindow]
    exact w₃.spliced_inside ctrlNodeCount.toNat (wordBytes _) hk
  by_cases hcq : image.cqSizeOk = true
  · -- the trace ring is rejected, after the completion ring was taken over
    have htrace : image.traceSizeOk = false := by
      rw [← Bool.not_eq_true]
      exact fun h => hbad ⟨hcq, h⟩
    have hoverride : ∃ u', overrideCqSize image u = .ok () u' ∧
        ∀ k < 4, u'.window.byte (ctrlNodeCount.toNat + k) =
          u.window.byte (ctrlNodeCount.toNat + k) := by
      rw [overrideCqSize]
      by_cases hzero : image.cqSizeOverride = 0
      · rw [if_pos hzero]
        exact ⟨u, rfl, fun _ _ => rfl⟩
      · have hvalid : isValidCqSize image.cqSizeOverride = true := by
          simp only [GraphImage.cqSizeOk, Bool.or_eq_true, beq_iff_eq] at hcq
          exact hcq.resolve_left hzero
        have huroom : u.window.Roomy := hwindow ▸ hroom
        rw [if_neg hzero, if_neg (not_not.mpr hvalid), run_modify_bind]
        refine ⟨_, onWindow_eq (writeU32_eq huroom _ (by decide)), fun k hk => ?_⟩
        refine u.window.spliced_outside (.inl ?_)
        have h8 : ctrlNodeCount.toNat = 8 := rfl
        have h12 : ctrlCqSize.toNat = 12 := rfl
        omega
    obtain ⟨u', hu', hkeep⟩ := hoverride
    have hreject : ∃ what, configureTrace image u' = .error (.image what) u' := by
      rw [configureTrace, if_pos htrace]
      exact ⟨_, rfl⟩
    obtain ⟨what, hreject⟩ := hreject
    refine ⟨what, u', ?_, fun k hk => (hkeep k hk).trans (hcount k hk)⟩
    rw [run_bind_of_ok hu', run_bind_of_error hreject]
  · have hreject : ∃ what, overrideCqSize image u = .error (.image what) u := by
      simp only [GraphImage.cqSizeOk, Bool.or_eq_true, beq_iff_eq, not_or] at hcq
      rw [overrideCqSize, if_neg hcq.1, if_pos hcq.2]
      exact ⟨_, rfl⟩
    obtain ⟨what, hreject⟩ := hreject
    exact ⟨what, u, run_bind_of_error hreject, hcount⟩

end Idle

/-- A mapping of 8 GB that holds `bytes`. -/
def roomyWindow (bytes : Nat → U8) : Window where
  mappedLength := 2 ^ 33
  windowOffset := 0
  bytes := bytes
  length_lt := by decide
  reach := by decide

theorem roomyWindow_roomy (bytes : Nat → U8) : (roomyWindow bytes).Roomy := by
  change 0 + 2 ^ 32 + chunkSize ≤ 2 ^ 33
  decide

def readySubmitter (bytes : Nat → U8) : Submitter where
  window := roomyWindow bytes
  cqSize := 64
  ready := true

theorem submitAndWait_error {image : GraphImage} {fw : Firmware} {s t : Submitter} {e : Fault}
    (hpoison : s.poisoned = false) (hactive : s.submissionActive = false)
    (h : publish image fw { s with submissionActive := true } = .error e t) :
    submitAndWait image fw s = .error e { t with submissionActive := false } := by
  have husable : requireUsable s = .ok () s := by
    rw [requireUsable, run_get_bind, hpoison]
    rfl
  have hclaim : claim s = .ok () { s with submissionActive := true } := by
    rw [claim, run_get_bind, hactive]
    rfl
  rw [submitAndWait, run_bind_of_ok husable, run_bind_of_ok hclaim, releasing,
    run_bind_of_error h]

theorem GraphImage.nodes_length {image : GraphImage} (h : image.malformed = none) :
    0 < image.nodes.length ∧ image.nodes.length ≤ Rp1.maxNodes := by
  unfold GraphImage.malformed at h
  split at h
  · cases h
  · split at h
    · cases h
    · rename_i hne hle
      exact ⟨List.length_pos_iff.mpr hne, Nat.le_of_not_lt hle⟩

/-- The word of a count up to 4096 that is not zero has a byte that is not zero. -/
theorem countBytes_ne {n : Nat} (hpos : 0 < n) (hle : n ≤ Rp1.maxNodes) :
    ¬ ∀ k (hk : k < 4), (wordBytes (BitVec.ofNat 32 n)).get ⟨k, hk⟩ = 0 := by
  intro hall
  have hmax : n ≤ 4096 := hle
  have hzero : (0 : U8).toNat = 0 := rfl
  have hlow : (BitVec.ofNat 32 n).setWidth 8 = (0 : U8) := hall 0 (by decide)
  have hhigh : ((BitVec.ofNat 32 n) >>> 8).setWidth 8 = (0 : U8) := hall 1 (by decide)
  have hlowNat := congrArg BitVec.toNat hlow
  have hhighNat := congrArg BitVec.toNat hhigh
  simp only [BitVec.toNat_setWidth, BitVec.toNat_ofNat, BitVec.toNat_ushiftRight,
    Nat.shiftRight_eq_div_pow] at hlowNat hhighNat
  omega

/-- A submission rejected for its image leaves the shared storage as it was, whatever the window
and the firmware, exactly if the image has a defect that phase 1 looks for, or valid ring
sizes. -/
theorem rejected_image_untouched (image : GraphImage) :
    (∀ fw s what s', submitAndWait image fw s = .error (.image what) s' → Untouched s s') ↔
      image.malformed.isSome = true ∨
        (image.cqSizeOk = true ∧ image.traceSizeOk = true) := by
  constructor
  · intro hall
    by_contra hnot
    rw [not_or, Bool.not_eq_true, Option.isSome_eq_false_iff, Option.isNone_iff_eq_none] at hnot
    obtain ⟨hok, hbad⟩ := hnot
    -- over a window of zeros, `node_count` is the first word that a rejected image leaves
    obtain ⟨u, hadmit, hwindow, -⟩ := admit_idle image
      (s := { readySubmitter (fun _ => 0) with submissionActive := true })
      (roomyWindow_roomy _) rfl rfl hok
    have hroom : u.window.Roomy := hwindow ▸ roomyWindow_roomy _
    obtain ⟨w₁, w₂, w₃, hsteps, hroom₃⟩ := steps_roomy image hroom
    obtain ⟨what, t, hstage, hcount⟩ := stage_rejects hsteps hroom₃ hbad
    have hpublish : publish image idleFirmware
        { readySubmitter (fun _ => 0) with submissionActive := true } = .error (.image what) t := by
      rw [publish, run_bind_of_ok hadmit, run_bind_of_error hstage]
    have hsame := hall _ _ _ _ (submitAndWait_error rfl rfl hpublish)
    obtain ⟨hpos, hle⟩ := GraphImage.nodes_length hok
    refine countBytes_ne hpos hle fun k hk => ?_
    exact (hcount k hk).symm.trans (hsame.nodeCount k hk)
  · intro hcond fw s what s' h
    obtain ⟨t, hpublish, rfl⟩ := submitAndWait_rejected h
    rcases publish_rejected hpublish with ⟨-, rfl⟩ | ⟨u, hadmit, hstage⟩
    · exact .of_eq rfl rfl
    · exfalso
      rcases hcond with hmalformed | ⟨hcq, htrace⟩
      · rw [prepare_ok hadmit] at hmalformed
        cases hmalformed
      · exact Throws.not_image (stage_foreign hcq htrace) hstage

/-- One NOP, with a completion ring of 128 entries and a trace ring of three. -/
def oddTrace : GraphImage where
  nodes := [⟨List.replicate 16 0, rfl⟩]
  argBuf := []
  clearSignalSlots := []
  cqSizeOverride := 128
  traceSizeOverride := 3

/-- The trace ring is rejected with `node_count` written and the completion ring taken over. -/
theorem odd_trace_touches : ∃ what s',
    submitAndWait oddTrace idleFirmware (readySubmitter fun _ => 0) = .error (.image what) s' ∧
      s'.window.byte 8 = 1 ∧ s'.window.byte 12 = 128 ∧ s'.cqSize = 128 ∧
      ¬ Untouched (readySubmitter fun _ => 0) s' := by
  refine ⟨_, _, rfl, rfl, rfl, rfl, fun h => ?_⟩
  exact absurd h.cqSize (by decide)

end Slash.Submit
