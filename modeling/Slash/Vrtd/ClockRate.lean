import Slash.Vrtd.ClockSearch

/-!
# Setting a rate and reading it back

The three encoders put `M`, `D` and `O` into the registers of a wizard and the decoders get them
back. So the rate that is read after a successful set is that of the candidate that locked, which
is the rate in the reply.
-/

namespace Slash.Vrtd

open Lib

/-! ## Encoders and decoders -/

theorem decode_mult : ∀ m < 512, 0 < m →
    orOne (lowCount (encodeCounts (BitVec.ofNat 32 m)) +
      highCount (encodeCounts (BitVec.ofNat 32 m)) +
      flag (encodeReg1 (BitVec.ofNat 32 m)) 0x100) = BitVec.ofNat 32 m := by
  decide +kernel

theorem decode_div : ∀ d < 512, 0 < d →
    orOne (lowCount (encodeCounts (BitVec.ofNat 32 d)) +
      highCount (encodeCounts (BitVec.ofNat 32 d)) +
      flag ((BitVec.ofNat 32 d % 2) <<< 10) (bit 10)) = BitVec.ofNat 32 d := by
  decide +kernel

theorem decode_leaf : ∀ o < 512, 0 < o →
    clockWizardDecodeLeaf (clockWizardEncodeLeaf (BitVec.ofNat 32 o)).1
      (clockWizardEncodeLeaf (BitVec.ofNat 32 o)).2 = BitVec.ofNat 32 o := by
  decide +kernel

/-! ## Registers -/

theorem ClockDriver.r32_w32_same (clk : ClockDriver) (offset : Nat) (value : U32) :
    (clk.w32 offset value).r32 offset = value := if_pos rfl

theorem ClockDriver.r32_w32_ne (clk : ClockDriver) {offset offset' : Nat} (value : U32)
    (h : offset' / 4 ≠ offset / 4) : (clk.w32 offset value).r32 offset' = clk.r32 offset' :=
  if_neg h

/-- The registers of a wizard hold the encodings of a triple. -/
structure Programmed (clk : ClockDriver) (wizardOffset : Nat) (m d o : U32) : Prop where
  reg1 : clk.r32 (clockDriverReg wizardOffset xclkWizReg1Offset) = encodeReg1 m
  reg2 : clk.r32 (clockDriverReg wizardOffset xclkWizReg2Offset) = encodeCounts m
  reg12 : clk.r32 (clockDriverReg wizardOffset xclkWizReg12Offset) = (d % 2) <<< 10
  reg13 : clk.r32 (clockDriverReg wizardOffset xclkWizReg13Offset) = encodeCounts d
  ctrl : clk.r32 (clockDriverReg wizardOffset (clockWizardLeafOffset clockDriverWizardClkoutId)) =
    (clockWizardEncodeLeaf o).1
  counts : clk.r32
    (clockDriverReg wizardOffset (clockWizardLeafOffset clockDriverWizardClkoutId) + 4) =
      (clockWizardEncodeLeaf o).2

/-- Nothing that is written later runs over what was written before. -/
theorem programMdo_programmed (clk : ClockDriver) (wizardOffset : Nat) :
    Programmed (clockDriverProgramMdo clk wizardOffset clockDriverWizardClkoutId) wizardOffset
      clk.m clk.d clk.o := by
  have hleaf : clockWizardLeafOffset clockDriverWizardClkoutId = 0x338 := rfl
  constructor
  all_goals
    simp only [clockDriverProgramMdo, clockDriverTriggerReconfig, clockDriverProgramCommonTail,
      commonTail, List.foldl_cons, List.foldl_nil, clockDriverUpdateM, clockDriverUpdateD,
      clockDriverUpdateO, hleaf, clockDriverReg, xclkWizReconfigOffset, xclkWizReg1Offset,
      xclkWizReg2Offset, xclkWizReg11Offset, xclkWizReg12Offset, xclkWizReg13Offset,
      xclkWizReg14Offset, xclkWizReg15Offset, xclkWizReg16Offset, xclkWizReg17Offset,
      xclkWizReg25Offset, xclkWizReg26Offset]
    simp (disch := omega) only [ClockDriver.r32_w32_ne, ClockDriver.r32_w32_same]
    rfl

theorem Programmed.rate {clk : ClockDriver} {wizardOffset m d o : Nat}
    (h : Programmed clk wizardOffset (BitVec.ofNat 32 m) (BitVec.ofNat 32 d) (BitVec.ofNat 32 o))
    (hm : 0 < m ∧ m < 512) (hd : 0 < d ∧ d < 512) (ho : 0 < o ∧ o < 512) :
    clockDriverGetRateHz clk wizardOffset clockDriverWizardClkoutId =
      clk.primInHz.toNat * m / (d * o) := by
  have hsmall : ∀ {x : Nat}, x < 512 → (BitVec.ofNat 32 x).toNat = x := by
    intro x hx
    rw [BitVec.toNat_ofNat]
    omega
  rw [clockDriverGetRateHz, clockDriverGetVcoHz, h.reg1, h.reg2, h.reg12, h.reg13, h.ctrl, h.counts,
    decode_mult m hm.2 hm.1, decode_div d hd.2 hd.1, decode_leaf o ho.2 ho.1, hsmall hm.2,
    hsmall hd.2, hsmall ho.2, Nat.div_div_eq_div_mul]

/-! ## Trying the candidates -/

section
variable {clk clk' : ClockDriver} {wizardOffset : Nat} {locks : Nat → Bool} {rate : U32}

/-- A success is that of one of the candidates, which is in the registers. -/
theorem tryCandidates_ok : ∀ {cands : List (Nat × ClockCandidate)} {clk : ClockDriver},
    tryCandidates wizardOffset clockDriverWizardClkoutId locks clk cands = (clk', .ok rate) →
    ∃ p ∈ cands, locks p.1 = true ∧ clk'.primInHz = clk.primInHz ∧
      Programmed clk' wizardOffset (BitVec.ofNat 32 p.2.m) (BitVec.ofNat 32 p.2.d)
        (BitVec.ofNat 32 p.2.o) ∧
      rate = BitVec.ofNat 32 (clockDriverGetRateHz clk' wizardOffset clockDriverWizardClkoutId) := by
  intro cands
  induction cands with
  | nil =>
    intro clk h
    cases h
  | cons p cands ih =>
    intro clk h
    obtain ⟨i, cand⟩ := p
    rw [tryCandidates] at h
    split at h
    · rename_i hlock
      cases h
      exact ⟨(i, cand), List.mem_cons_self, hlock, rfl, programMdo_programmed _ _, rfl⟩
    · obtain ⟨p, hp, hlock, hprim, hprog, hrate⟩ := ih h
      exact ⟨p, List.mem_cons_of_mem _ hp, hlock, hprim, hprog, hrate⟩

theorem trySetRate_ok {rateHz : U32} {noExceed : Bool} {cells : Nat → ClockCandidate}
    (h : clockDriverTrySetRateHz clk wizardOffset clockDriverWizardClkoutId rateHz noExceed cells
      locks = (clk', .ok rate)) :
    ∃ c ∈ offered clk.primInHz.toNat rateHz.toNat noExceed, clk'.primInHz = clk.primInHz ∧
      c ∈ (clockDriverGenerateCandidates clk.primInHz.toNat rateHz.toNat defaultMaxCandidates
        noExceed cells).listed ∧
      Programmed clk' wizardOffset (BitVec.ofNat 32 c.m) (BitVec.ofNat 32 c.d)
        (BitVec.ofNat 32 c.o) ∧
      rate = BitVec.ofNat 32 (clockDriverGetRateHz clk' wizardOffset clockDriverWizardClkoutId) := by
  rw [clockDriverTrySetRateHz] at h
  by_cases hzero : rateHz = 0
  · rw [if_pos hzero] at h
    cases congrArg Prod.snd h
  rw [if_neg hzero] at h
  have hpos : 0 < rateHz.toNat := Nat.pos_of_ne_zero fun hnat => hzero (BitVec.eq_of_toNat_eq hnat)
  obtain ⟨b, hbest, hperm, -⟩ := generate_best hpos noExceed cells
  dsimp only at h
  split at h
  · cases congrArg Prod.snd h
  · obtain ⟨p, hp, -, hprim, hprog, hrate⟩ := tryCandidates_ok h
    have hlisted := (List.of_mem_zip hp).2
    exact ⟨p.2, hbest.sub _ (hperm.mem_iff.mp hlisted), hprim, hlisted, hprog, hrate⟩

/-- A rate that some triple meets is set, if the first candidate locks. -/
theorem trySetRate_locked (clk : ClockDriver) (wizardOffset : Nat) {rateHz : U32}
    {noExceed : Bool} (cells : Nat → ClockCandidate) (locks : Nat → Bool)
    (hprim : clk.primInHz.toNat = defaultPrimInHz) (hrate : 0 < rateHz.toNat) {m d o : Nat}
    (hf : Feasible defaultPrimInHz rateHz.toNat noExceed m d o) (hlock : locks 0 = true) :
    ∃ clk' reported, clockDriverTrySetRateHz clk wizardOffset clockDriverWizardClkoutId rateHz
      noExceed cells locks = (clk', .ok reported) := by
  obtain ⟨x, hx, -⟩ := feasible_offered hrate hf
  obtain ⟨y, hy, -⟩ := generate_covers defaultPrimInHz hrate noExceed cells x hx
  rw [← hprim, Shortlist.mem_listed] at hy
  obtain ⟨i, hi, -⟩ := hy
  have hzero : rateHz ≠ 0 := by
    rintro rfl
    exact absurd hrate (by decide)
  rw [clockDriverTrySetRateHz, if_neg hzero]
  generalize clockDriverGenerateCandidates clk.primInHz.toNat rateHz.toNat defaultMaxCandidates
    noExceed cells = cands at hi
  dsimp only
  rw [if_neg (by omega)]
  obtain ⟨n, hn⟩ : ∃ n, cands.count = n + 1 := ⟨cands.count - 1, by omega⟩
  rw [Shortlist.listed, hn, List.range_succ_eq_map, List.map_cons, List.zip_cons_cons,
    tryCandidates, if_pos hlock]
  exact ⟨_, _, rfl⟩

end

def freshDriver : ClockDriver where
  regs := fun _ => 0
  primInHz := 100000000
  m := 0
  d := 0
  o := 0

end Slash.Vrtd
