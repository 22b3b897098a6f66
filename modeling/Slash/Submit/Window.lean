import Slash.Lib.Outcome
import Slash.Lib.Splice
import Slash.Rp1.Words

/-!
# The shared window

`Rp1BarWindow`: the 64 MB of device memory that host and firmware share, seen by the host as a
part of a BAR mapping. An access checks its range against the whole mapping and not against the
window; a block is written in pieces of one megabyte, each checked when its turn comes, so an
access that leaves the mapping throws after the pieces before it are written.

`Window.byte` is what an access at a window offset reads, and `Window.spliced` what a block
written inside the window leaves.
-/

namespace Slash.Submit

open Lib
open Rp1 (U8 U16 U32)

/-- `kWindowSize`. -/
def windowSize : Nat := 0x4000000

/-- `kChunk` of `writeAt`. -/
def chunkSize : Nat := 0x100000

inductive Fault where
  /-- a defect of the image -/
  | image (what : String)
  | runtime (what : String)
  /-- `throwTerminalError` -/
  | terminal (state graphSeq : U32)
  | timeout (what : String)
  /-- an access outside the mapping -/
  | range (what : String)
  deriving DecidableEq, Repr

/-- `Rp1BarWindow` over a mapping. Both constructors are called with an offset (64 MB, or 0 in
process) that keeps the window in the reach of the backend's 32-bit offsets. -/
structure Window where
  mappedLength : Nat
  windowOffset : Nat
  bytes : Nat → U8
  length_lt : mappedLength < 2 ^ 64
  reach : windowOffset + windowSize ≤ 2 ^ 32

abbrev WindowM := EStateM Fault Window

def absoluteOffset (offset : U32) (n : Nat) : WindowM U32 := do
  let w ← get
  let abs := (w.windowOffset + offset.toNat) % 2 ^ 64
  let stop := (abs + n) % 2 ^ 64
  if stop > w.mappedLength ∨ stop < abs then
    throw (.range ("Rp1BarWindow: window-relative offset " ++ toString offset.toNat ++ " + " ++
      toString n ++ " exceeds mapping " ++ toString w.mappedLength))
  else pure (BitVec.ofNat 32 abs)

/-- The mapping with a block written at an address. -/
def Window.put (w : Window) (a : Nat) (data : List U8) : Window :=
  { w with bytes := splice w.bytes a data }

/-- `writeBytes` of the backend. -/
def writeBytes (abs : U32) (data : List U8) : WindowM Unit :=
  modify fun w => w.put abs.toNat data

/-- The loop of `writeAt`; every round writes at least one byte. -/
def writeChunks : Nat → U32 → List U8 → WindowM Unit
  | 0, _, _ => pure ()
  | fuel + 1, offset, data =>
    if data = [] then pure ()
    else do
      let step := min data.length chunkSize
      let abs ← absoluteOffset offset step
      writeBytes abs (data.take step)
      writeChunks fuel (offset + BitVec.ofNat 32 step) (data.drop step)

def writeAt (offset : U32) (data : List U8) : WindowM Unit := writeChunks data.length offset data

/-- The four bytes of a word, low byte first. -/
def wordBytes (v : U32) : List U8 :=
  [v.setWidth 8, (v >>> 8).setWidth 8, (v >>> 16).setWidth 8, (v >>> 24).setWidth 8]

/-- The word at an address of the backend. -/
def wordAt (bytes : Nat → U8) (a : Nat) : U32 :=
  (bytes a).setWidth 32 ||| (bytes (a + 1)).setWidth 32 <<< 8 |||
    (bytes (a + 2)).setWidth 32 <<< 16 ||| (bytes (a + 3)).setWidth 32 <<< 24

def readU32 (offset : U32) : WindowM U32 := do
  let abs ← absoluteOffset offset 4
  let w ← get
  pure (wordAt w.bytes abs.toNat)

def writeU32 (offset value : U32) : WindowM Unit := do
  let abs ← absoluteOffset offset 4
  writeBytes abs (wordBytes value)

/-- `clearSignal`: a slot is sixteen bytes. -/
def clearSignal (slot : U32) : WindowM Unit :=
  writeAt (Rp1.defaultSigArrayOffset + slot * 16) (List.replicate 16 0)

/-! ## What an access leaves -/

def Window.byte (w : Window) (o : Nat) : U8 := w.bytes (w.windowOffset + o)

def Window.spliced (w : Window) (o : Nat) (data : List U8) : Window :=
  w.put (w.windowOffset + o) data

section Spliced

variable (w : Window)

theorem Window.spliced_nil (o : Nat) : w.spliced o [] = w := by
  simp [Window.spliced, Window.put]

theorem Window.spliced_append (o : Nat) (xs ys : List U8) :
    (w.spliced o xs).spliced (o + xs.length) ys = w.spliced o (xs ++ ys) := by
  simp only [Window.spliced, Window.put, ← Nat.add_assoc, splice_append]

theorem Window.spliced_inside (o : Nat) (data : List U8) {k : Nat} (h : k < data.length) :
    (w.spliced o data).byte (o + k) = data[k] := by
  have hin := splice_inside w.bytes (w.windowOffset + o) h
  rwa [Nat.add_assoc] at hin

theorem Window.spliced_outside {o i : Nat} {data : List U8} (h : i < o ∨ o + data.length ≤ i) :
    (w.spliced o data).byte i = w.byte i :=
  splice_outside w.bytes (i := w.windowOffset + i) (by omega)

end Spliced

structure SameMapping (w w' : Window) : Prop where
  mappedLength : w'.mappedLength = w.mappedLength
  windowOffset : w'.windowOffset = w.windowOffset

theorem SameMapping.refl (w : Window) : SameMapping w w := ⟨rfl, rfl⟩

theorem SameMapping.trans {w w' w'' : Window} (h : SameMapping w w') (h' : SameMapping w' w'') :
    SameMapping w w'' :=
  ⟨h'.mappedLength.trans h.mappedLength, h'.windowOffset.trans h.windowOffset⟩

/-- The address that an access at `offset` uses. -/
def Window.absolute (w : Window) (offset : U32) : U32 :=
  BitVec.ofNat 32 ((w.windowOffset + offset.toNat) % 2 ^ 64)

/-- An access in range answers its place in the mapping, cut to 32 bits. -/
theorem absoluteOffset_ok {w w' : Window} {offset abs : U32} {n : Nat}
    (h : absoluteOffset offset n w = .ok abs w') :
    w' = w ∧ abs = w.absolute offset := by
  obtain ⟨v, t, hget, h⟩ := run_bind_ok h
  cases hget
  dsimp only at h
  split at h
  · cases h
  · cases h
    exact ⟨rfl, rfl⟩

variable {offset : U32}

theorem absoluteOffset_error {w w' : Window} {n : Nat} {e : Fault}
    (h : absoluteOffset offset n w = .error e w') : w' = w := by
  rw [absoluteOffset, run_get_bind] at h
  split at h
  · cases h
    rfl
  · cases h

theorem Window.absolute_toNat (w : Window) (h : offset.toNat < windowSize) :
    (w.absolute offset).toNat = w.windowOffset + offset.toNat := by
  have hreach := w.reach
  rw [Window.absolute, BitVec.toNat_ofNat, Nat.mod_eq_of_lt (show w.windowOffset + offset.toNat < 2 ^ 64 by omega),
    Nat.mod_eq_of_lt (by omega)]

theorem writeBytes_bind {α : Type} (w : Window) (abs : U32) (data : List U8)
    (k : Unit → WindowM α) : (writeBytes abs data >>= k) w = k () (w.put abs.toNat data) := rfl

theorem piece_ok {w w' : Window} {step : Nat} {data : List U8} {k : WindowM Unit}
    (h : (do let abs ← absoluteOffset offset step
             writeBytes abs data
             k : WindowM Unit) w = .ok () w') :
    k (w.put (w.absolute offset).toNat data) = .ok () w' := by
  obtain ⟨abs, t, habs, h⟩ := run_bind_ok h
  obtain ⟨rfl, rfl⟩ := absoluteOffset_ok habs
  obtain ⟨_, t', hwrite, h⟩ := run_bind_ok h
  cases hwrite
  exact h

theorem writeChunks_within : ∀ (fuel : Nat) {w w' : Window} {offset : U32} {data : List U8},
    data.length ≤ fuel → offset.toNat + data.length ≤ windowSize →
    writeChunks fuel offset data w = .ok () w' → w' = w.spliced offset.toNat data
  | 0, w, w', offset, data, hfuel, _, h => by
    cases h
    rw [List.eq_nil_of_length_eq_zero (Nat.le_zero.mp hfuel), Window.spliced_nil]
  | fuel + 1, w, w', offset, data, hfuel, hin, h => by
    rw [writeChunks] at h
    split at h
    · rename_i hnil
      cases h
      rw [hnil, Window.spliced_nil]
    · rename_i hne
      have hpos : 0 < data.length := List.length_pos_iff.mpr hne
      have hstep : min data.length chunkSize ≤ data.length := Nat.min_le_left _ _
      have hone : 1 ≤ min data.length chunkSize := Nat.le_min.mpr ⟨hpos, by decide⟩
      generalize min data.length chunkSize = step at h hstep hone
      have hwindow : windowSize < 2 ^ 32 := by decide
      have hnext : (offset + BitVec.ofNat 32 step).toNat = offset.toNat + step := by
        rw [BitVec.toNat_add, BitVec.toNat_ofNat, Nat.mod_eq_of_lt (a := step) (by omega),
          Nat.mod_eq_of_lt (by omega)]
      have htake : (data.take step).length = step := by
        rw [List.length_take, Nat.min_eq_left hstep]
      -- the piece lands at its own offset, the rest after it
      have hrest := piece_ok h
      rw [w.absolute_toNat (by omega)] at hrest
      have ih := writeChunks_within fuel (by rw [List.length_drop]; omega)
        (by rw [List.length_drop, hnext]; omega) hrest
      rw [ih, hnext]
      have happend := w.spliced_append offset.toNat (data.take step) (data.drop step)
      rw [htake, List.take_append_drop] at happend
      exact happend

theorem writeAt_within {w w' : Window} {data : List U8}
    (hin : offset.toNat + data.length ≤ windowSize) (h : writeAt offset data w = .ok () w') :
    w' = w.spliced offset.toNat data :=
  writeChunks_within data.length (Nat.le_refl _) hin h

theorem writeU32_within {w w' : Window} {offset value : U32}
    (hin : offset.toNat + 4 ≤ windowSize) (h : writeU32 offset value w = .ok () w') :
    w' = w.spliced offset.toNat (wordBytes value) := by
  obtain ⟨abs, t, habs, h⟩ := run_bind_ok h
  obtain ⟨rfl, rfl⟩ := absoluteOffset_ok habs
  cases h
  rw [t.absolute_toNat (by omega)]
  rfl

/-! ## A mapping with room -/

/-- Every piece that starts at a 32-bit offset of the window lies in the mapping. -/
def Window.Roomy (w : Window) : Prop := w.windowOffset + 2 ^ 32 + chunkSize ≤ w.mappedLength

theorem Window.Roomy.same {w w' : Window} (h : w.Roomy) (hsame : SameMapping w w') :
    w'.Roomy := by
  rw [Window.Roomy, hsame.windowOffset, hsame.mappedLength]
  exact h

theorem absoluteOffset_roomy {w : Window} (h : w.Roomy) (offset : U32) {n : Nat}
    (hn : n ≤ chunkSize) : absoluteOffset offset n w = .ok (w.absolute offset) w := by
  have hlt := w.length_lt
  have hoffset := offset.isLt
  have hroom : w.windowOffset + 2 ^ 32 + chunkSize ≤ w.mappedLength := h
  have habs : (w.windowOffset + offset.toNat) % 2 ^ 64 = w.windowOffset + offset.toNat :=
    Nat.mod_eq_of_lt (by omega)
  have hstop : (w.windowOffset + offset.toNat + n) % 2 ^ 64 = w.windowOffset + offset.toNat + n :=
    Nat.mod_eq_of_lt (by omega)
  have hfits : ¬ (((w.windowOffset + offset.toNat) % 2 ^ 64 + n) % 2 ^ 64 > w.mappedLength ∨
      ((w.windowOffset + offset.toNat) % 2 ^ 64 + n) % 2 ^ 64 <
        (w.windowOffset + offset.toNat) % 2 ^ 64) := by
    rw [habs, hstop]
    omega
  rw [absoluteOffset, run_get_bind, if_neg hfits]
  rfl

theorem writeChunks_roomy : ∀ (fuel : Nat) {w : Window} (offset : U32) (data : List U8),
    w.Roomy → ∃ w', writeChunks fuel offset data w = .ok () w' ∧ SameMapping w w'
  | 0, w, _, _, _ => ⟨w, rfl, .refl w⟩
  | fuel + 1, w, offset, data, h => by
    rw [writeChunks]
    split
    · exact ⟨w, rfl, .refl w⟩
    · rw [run_bind_of_ok (absoluteOffset_roomy h offset (Nat.min_le_right _ _))]
      rw [writeBytes_bind]
      have hnext : SameMapping w (w.put (w.absolute offset).toNat
        (data.take (min data.length chunkSize))) := ⟨rfl, rfl⟩
      obtain ⟨w', hrest, hsame⟩ := writeChunks_roomy fuel
        (offset + BitVec.ofNat 32 (min data.length chunkSize))
        (data.drop (min data.length chunkSize)) (h.same hnext)
      exact ⟨w', hrest, hnext.trans hsame⟩

theorem writeAt_roomy {w : Window} (h : w.Roomy) (offset : U32) (data : List U8) :
    ∃ w', writeAt offset data w = .ok () w' ∧ SameMapping w w' :=
  writeChunks_roomy data.length offset data h

theorem writeU32_eq {w : Window} (h : w.Roomy) (value : U32) (hin : offset.toNat + 4 ≤ windowSize) :
    writeU32 offset value w = .ok () (w.spliced offset.toNat (wordBytes value)) := by
  rw [writeU32, run_bind_of_ok (absoluteOffset_roomy h offset (by decide))]
  refine congrArg (EStateM.Result.ok ()) ?_
  rw [w.absolute_toNat (by omega)]
  rfl

/-! ## A block of more than one piece -/

/-- What the first byte of the second piece was before does not matter. -/
theorem writeAt_second_piece {w : Window} {data : List U8} {bytes : Nat → U8}
    (hin : offset.toNat + chunkSize < windowSize) (hlong : chunkSize < data.length)
    (hbytes : ∀ i, i ≠ w.windowOffset + offset.toNat + chunkSize → bytes i = w.bytes i)
    {w₁ w₂ : Window} (h₁ : writeAt offset data w = .ok () w₁)
    (h₂ : writeAt offset data { w with bytes := bytes } = .ok () w₂) : w₁ = w₂ := by
  have hmin : min data.length chunkSize = chunkSize := Nat.min_eq_right (Nat.le_of_lt hlong)
  obtain ⟨fuel, hfuel⟩ : ∃ fuel, data.length = fuel + 2 :=
    ⟨data.length - 2, by have : 2 ≤ chunkSize := by decide
                         omega⟩
  have hnil : data ≠ [] := by
    intro h
    rw [h] at hlong
    exact absurd hlong (by decide)
  have hrest : data.drop chunkSize ≠ [] := by
    rw [ne_eq, List.drop_eq_nil_iff]
    omega
  -- both runs, up to the end of the second piece
  rw [writeAt, hfuel, writeChunks, if_neg hnil, hmin] at h₁ h₂
  have p₁ := piece_ok h₁
  have p₂ := piece_ok h₂
  rw [writeChunks, if_neg hrest] at p₁ p₂
  have q₁ := piece_ok p₁
  have q₂ := piece_ok p₂
  have hsecond : (offset + BitVec.ofNat 32 chunkSize).toNat = offset.toNat + chunkSize := by
    have hwindow : windowSize < 2 ^ 32 := by decide
    rw [BitVec.toNat_add, BitVec.toNat_ofNat, Nat.mod_eq_of_lt (a := chunkSize) (by decide),
      Nat.mod_eq_of_lt (by omega)]
  have hplace : (w.absolute (offset + BitVec.ofNat 32 chunkSize)).toNat =
      w.windowOffset + offset.toNat + chunkSize := by
    rw [w.absolute_toNat (by omega), hsecond, Nat.add_assoc]
  have hys : 1 ≤ ((data.drop chunkSize).take
      (min (data.drop chunkSize).length chunkSize)).length := by
    have hpos : 0 < (data.drop chunkSize).length := List.length_pos_iff.mpr hrest
    rw [List.length_take]
    exact Nat.le_min.mpr ⟨Nat.le_min.mpr ⟨hpos, by decide⟩, hpos⟩
  have hsame : splice (splice w.bytes (w.absolute offset).toNat (data.take chunkSize))
      (w.absolute (offset + BitVec.ofNat 32 chunkSize)).toNat
      ((data.drop chunkSize).take (min (data.drop chunkSize).length chunkSize)) =
      splice (splice bytes (w.absolute offset).toNat (data.take chunkSize))
      (w.absolute (offset + BitVec.ofNat 32 chunkSize)).toNat
      ((data.drop chunkSize).take (min (data.drop chunkSize).length chunkSize)) := by
    refine splice_congr fun i hi => ?_
    have hne : i ≠ w.windowOffset + offset.toNat + chunkSize := by omega
    simp only [splice, hbytes i hne]
  have heq : (.ok () w₁ : EStateM.Result Fault Window Unit) = .ok () w₂ := by
    rw [← q₁, ← q₂]
    exact congrArg (writeChunks fuel _ _) (congrArg (fun b => { w with bytes := b }) hsame)
  cases heq
  rfl

end Slash.Submit
