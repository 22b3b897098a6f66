import Mathlib.Data.Prod.Lex
import Slash.Vrtd.Clock

/-!
# The search for clock candidates

The driver looks at a few output dividers around the rounded quotient for each pair of multiplier
and input divider, and keeps a bounded number of candidates. Still its first choice is the best of
all feasible triples: for one pair the rate falls with the divider by more than a hertz at each
step, so that the dividers outside the window are further from the target than its ends.
-/

namespace Slash.Vrtd

open Lib List

/-! ## The comparison -/

/-- What the comparison compares, in the order in which it does. A higher VCO is better. -/
def ClockCandidate.key (c : ClockCandidate) : ℕ ×ₗ ℕ ×ₗ ℕ ×ₗ ℕᵒᵈ ×ₗ ℕ :=
  toLex (c.diffHz, toLex (oddness 4 c.o, toLex (oddness 2 c.o,
    toLex (OrderDual.toDual c.fvcoHz, c.o))))

theorem compared {x y : Nat} {p : Prop} [Decidable p] {rest : Int} {q : Prop} (hp : p → x ≠ y)
    (hrest : rest < 0 ↔ q) :
    (if x ≠ y then if p then (-1 : Int) else 1 else rest) < 0 ↔ p ∨ x = y ∧ q := by
  by_cases hxy : x = y
  · have hnot : ¬ p := fun h => hp h hxy
    simp [hxy, hrest, hnot]
  · by_cases hp' : p <;> simp [hxy, hp']

theorem compared_le {x y : Nat} {p : Prop} [Decidable p] {rest : Int} {q : Prop} (hp : p → x ≠ y)
    (hrest : rest ≤ 0 ↔ q) :
    (if x ≠ y then if p then (-1 : Int) else 1 else rest) ≤ 0 ↔ p ∨ x = y ∧ q := by
  by_cases hxy : x = y
  · have hnot : ¬ p := fun h => hp h hxy
    simp [hxy, hrest, hnot]
  · by_cases hp' : p <;> simp [hxy, hp']

theorem candidateCmp_lt_iff (a b : ClockCandidate) :
    clockDriverCandidateCmp a b < 0 ↔ a.key < b.key := by
  have hequal : (0 : Int) < 0 ↔ (False : Prop) := by simp
  rw [clockDriverCandidateCmp,
    compared Nat.ne_of_lt (compared Nat.ne_of_lt (compared Nat.ne_of_lt (compared Nat.ne_of_gt
      (compared Nat.ne_of_lt hequal))))]
  simp only [ClockCandidate.key, Prod.Lex.toLex_lt_toLex, OrderDual.toDual_lt_toDual,
    OrderDual.toDual_inj, and_false, or_false]

theorem candidateCmp_le_iff (a b : ClockCandidate) :
    clockDriverCandidateCmp a b ≤ 0 ↔ a.key ≤ b.key := by
  have hequal : (0 : Int) ≤ 0 ↔ (True : Prop) := by simp
  rw [clockDriverCandidateCmp,
    compared_le Nat.ne_of_lt (compared_le Nat.ne_of_lt (compared_le Nat.ne_of_lt
      (compared_le Nat.ne_of_gt (compared_le Nat.ne_of_lt hequal))))]
  simp only [ClockCandidate.key, Prod.Lex.toLex_le_toLex, OrderDual.toDual_lt_toDual,
    OrderDual.toDual_inj, and_true, ← Nat.le_iff_lt_or_eq]

theorem candidateLess_iff (a b : ClockCandidate) : candidateLess a b = true ↔ a.key < b.key := by
  rw [candidateLess, decide_eq_true_eq, candidateCmp_lt_iff]

/-! ## Feasible triples -/

/-- A triple in the limits of the wizard, at this input. The VCO and the phase detector are compared
as they are, not rounded. -/
structure Feasible (primInHz targetHz : Nat) (noExceed : Bool) (m d o : Nat) : Prop where
  mult : xclkMMin ≤ m ∧ m ≤ xclkMMax
  div : xclkDMin ≤ d ∧ d ≤ xclkDMax
  out : xclkOMin ≤ o ∧ o ≤ xclkOMax
  vco : vcoMinHz * d ≤ primInHz * m ∧ primInHz * m ≤ vcoMaxHz * d
  pfd : pfdMinHz * d ≤ primInHz ∧ primInHz ≤ pfdMaxHz * d
  rate : noExceed = true → primInHz * m / (d * o) ≤ targetHz

section
variable {primInHz targetHz m d o : Nat} {noExceed : Bool}

/-- The tests of the source, on the rounded frequencies. -/
def InLimits (primInHz m d : Nat) : Prop :=
  ¬ (primInHz * m / d < vcoMinHz ∨ primInHz * m / d > vcoMaxHz) ∧
    ¬ (primInHz / d < pfdMinHz ∨ primInHz / d > pfdMaxHz)

instance (primInHz m d : Nat) : Decidable (InLimits primInHz m d) :=
  inferInstanceAs (Decidable (_ ∧ _))

/-- At 100 MHz rounding makes no difference to the limits. -/
theorem inLimits_iff (hd : xclkDMin ≤ d ∧ d ≤ xclkDMax) : InLimits defaultPrimInHz m d ↔
    (vcoMinHz * d ≤ defaultPrimInHz * m ∧ defaultPrimInHz * m ≤ vcoMaxHz * d) ∧
      (pfdMinHz * d ≤ defaultPrimInHz ∧ defaultPrimInHz ≤ pfdMaxHz * d) := by
  have hpos : 0 < d := hd.1
  have hle : ∀ x y, x / d ≤ y ↔ x < (y + 1) * d := by
    intro x y
    rw [← Nat.lt_succ_iff, Nat.div_lt_iff_lt_mul hpos]
  simp only [InLimits, not_or, Nat.not_lt, gt_iff_lt]
  rw [Nat.le_div_iff_mul_le hpos, Nat.le_div_iff_mul_le hpos, hle, hle]
  simp only [xclkDMin, xclkDMax, vcoMinHz, vcoMaxHz, pfdMinHz, pfdMaxHz, defaultPrimInHz,
    xclkMhz] at *
  omega

/-- The dividers that the source looks at for a pair. -/
def window (primInHz targetHz m d : Nat) : List Nat :=
  upTo (windowLow (estimateO (primInHz * m / d) targetHz))
    (windowHigh (estimateO (primInHz * m / d) targetHz))

def offeredFor (primInHz targetHz : Nat) (noExceed : Bool) (m d : Nat) : List ClockCandidate :=
  if InLimits primInHz m d then
    ((window primInHz targetHz m d).filter fun o =>
      !(noExceed && (primInHz * m / d / o > targetHz : Bool))).map
      (candidateOf primInHz targetHz m d)
  else []

def offered (primInHz targetHz : Nat) (noExceed : Bool) : List ClockCandidate :=
  (upTo xclkMMin xclkMMax).flatMap fun m =>
    (upTo xclkDMin xclkDMax).flatMap fun d => offeredFor primInHz targetHz noExceed m d

theorem searchD_eq (max : Nat) (cands : Shortlist ClockCandidate) :
    searchD primInHz targetHz max noExceed m cands d =
      (offeredFor primInHz targetHz noExceed m d).foldl (Shortlist.offer candidateLess max)
        cands := by
  have hinner : ∀ (os : List Nat) (cands : Shortlist ClockCandidate),
      os.foldl (searchO primInHz targetHz max noExceed m d) cands =
        ((os.filter fun o => !(noExceed && (primInHz * m / d / o > targetHz : Bool))).map
          (candidateOf primInHz targetHz m d)).foldl
          (Shortlist.offer candidateLess max) cands := by
    intro os
    induction os with
    | nil => exact fun _ => rfl
    | cons o os ih =>
      intro cands
      rw [foldl_cons, ih, searchO]
      cases hskip : noExceed && (primInHz * m / d / o > targetHz : Bool) with
      | true =>
        rw [filter_cons_of_neg (by rw [hskip]; decide), if_pos rfl]
      | false =>
        rw [filter_cons_of_pos (by rw [hskip]; decide), if_neg Bool.false_ne_true,
          map_cons, foldl_cons]
  unfold searchD offeredFor
  by_cases hvco : primInHz * m / d < vcoMinHz ∨ primInHz * m / d > vcoMaxHz
  · have hout : ¬ InLimits primInHz m d := fun hand => hand.1 hvco
    rw [if_pos hvco, if_neg hout]
    rfl
  · by_cases hpfd : primInHz / d < pfdMinHz ∨ primInHz / d > pfdMaxHz
    · have hout : ¬ InLimits primInHz m d := fun hand => hand.2 hpfd
      rw [if_neg hvco, if_pos hpfd, if_neg hout]
      rfl
    · have hin : InLimits primInHz m d := ⟨hvco, hpfd⟩
      rw [if_neg hvco, if_neg hpfd, if_pos hin]
      exact hinner _ cands

theorem generate_eq {max : Nat} (htarget : targetHz ≠ 0) (hmax : max ≠ 0)
    (cells : Nat → ClockCandidate) :
    clockDriverGenerateCandidates primInHz targetHz max noExceed cells =
      ((offered primInHz targetHz noExceed).foldl (Shortlist.offer candidateLess max)
        ⟨0, cells⟩).sort candidateLess := by
  rw [clockDriverGenerateCandidates, if_neg (not_or.mpr ⟨htarget, hmax⟩), offered,
    foldl_flatMap]
  simp only [foldl_flatMap, ← searchD_eq]

theorem mem_upTo {lo hi x : Nat} : x ∈ upTo lo hi ↔ lo ≤ x ∧ x ≤ hi := by
  rw [upTo, mem_range'_1]
  omega

theorem mem_offeredFor {c : ClockCandidate} : c ∈ offeredFor primInHz targetHz noExceed m d ↔
    InLimits primInHz m d ∧ ∃ o ∈ window primInHz targetHz m d,
      (noExceed = true → primInHz * m / d / o ≤ targetHz) ∧
      c = candidateOf primInHz targetHz m d o := by
  rw [offeredFor]
  by_cases hlimits : InLimits primInHz m d
  · rw [if_pos hlimits, mem_map]
    have hskip : ∀ o, (!(noExceed && (primInHz * m / d / o > targetHz : Bool))) = true ↔
        (noExceed = true → primInHz * m / d / o ≤ targetHz) := by
      intro o
      cases noExceed <;> simp
    simp only [mem_filter, hskip]
    constructor
    · rintro ⟨o, ⟨ho, hrate⟩, rfl⟩
      exact ⟨hlimits, o, ho, hrate, rfl⟩
    · rintro ⟨-, o, ho, hrate, rfl⟩
      exact ⟨o, ⟨ho, hrate⟩, rfl⟩
  · rw [if_neg hlimits]
    constructor
    · intro hmem
      cases hmem
    · exact fun hand => absurd hand.1 hlimits

theorem mem_offered {c : ClockCandidate} : c ∈ offered primInHz targetHz noExceed ↔
    ∃ m d, (xclkMMin ≤ m ∧ m ≤ xclkMMax) ∧ (xclkDMin ≤ d ∧ d ≤ xclkDMax) ∧
      c ∈ offeredFor primInHz targetHz noExceed m d := by
  simp only [offered, mem_flatMap, mem_upTo]
  constructor
  · rintro ⟨m, hm, d, hd, hc⟩
    exact ⟨m, d, hm, hd, hc⟩
  · rintro ⟨m, d, hm, hd, hc⟩
    exact ⟨m, hm, d, hd, hc⟩

theorem offered_nodup (primInHz targetHz : Nat) (noExceed : Bool) :
    (offered primInHz targetHz noExceed).Nodup := by
  have hupTo : ∀ lo hi, (upTo lo hi).Nodup := fun lo hi => nodup_range'
  have hm : ∀ {m d : Nat} {c : ClockCandidate}, c ∈ offeredFor primInHz targetHz noExceed m d →
      c.m = m ∧ c.d = d := by
    intro m d c hc
    obtain ⟨-, o, -, -, rfl⟩ := mem_offeredFor.mp hc
    exact ⟨rfl, rfl⟩
  refine nodup_flatMap.mpr ⟨fun m _ => nodup_flatMap.mpr ⟨fun d _ => ?_, ?_⟩, ?_⟩
  · rw [offeredFor]
    split
    · refine ((hupTo _ _).filter _).map_on fun o _ o' _ heq => ?_
      exact congrArg ClockCandidate.o heq
    · exact nodup_nil
  · refine (hupTo _ _).imp fun {d d'} hne => ?_
    exact disjoint_left.mpr fun c hc hc' => hne ((hm hc).2.symm.trans (hm hc').2)
  · refine (hupTo _ _).imp fun {m m'} hne => ?_
    refine disjoint_left.mpr fun c hc hc' => ?_
    obtain ⟨d, -, hd⟩ := mem_flatMap.mp hc
    obtain ⟨d', -, hd'⟩ := mem_flatMap.mp hc'
    exact hne ((hm hd).1.symm.trans (hm hd').1)

/-! ## The window is wide enough -/

theorem rate_falls {fvcoHz o' : Nat} (hvco : vcoMinHz ≤ fvcoHz) (hpos : 0 < o') (hlt : o' < o)
    (ho : o ≤ xclkOMax) : fvcoHz / o < fvcoHz / o' := by
  simp only [vcoMinHz, xclkOMax, xclkMhz] at hvco ho
  have hmul : fvcoHz / o * o ≤ fvcoHz := Nat.div_mul_le_self _ _
  have hlarge : o ≤ fvcoHz / o := (Nat.le_div_iff_mul_le (by omega)).mpr <| by
    calc o * o ≤ 511 * 511 := Nat.mul_le_mul ho ho
      _ ≤ fvcoHz := by omega
  refine (Nat.le_div_iff_mul_le hpos).mpr ?_
  calc (fvcoHz / o + 1) * o' ≤ (fvcoHz / o + 1) * (o - 1) := Nat.mul_le_mul_left _ (by omega)
    _ ≤ fvcoHz / o * o := by
      obtain ⟨k, rfl⟩ : ∃ k, o = k + 1 := ⟨o - 1, by omega⟩
      rw [Nat.add_sub_cancel, Nat.mul_succ, Nat.succ_mul]
      omega
    _ ≤ fvcoHz := hmul

theorem estimateO_eq (fvcoHz targetHz : Nat) :
    estimateO fvcoHz targetHz = max 2 (min 511 ((fvcoHz + targetHz / 2) / targetHz)) := by
  have hmin : xclkOMin = 2 := rfl
  have hmax : xclkOMax = 511 := rfl
  unfold estimateO
  generalize (fvcoHz + targetHz / 2) / targetHz = q
  dsimp only
  split
  · omega
  · split <;> omega

theorem windowLow_eq (oEst : Nat) : windowLow oEst = max 2 (oEst - 6) := by
  have hmin : xclkOMin = 2 := rfl
  have hwindow : defaultOWindow = 6 := rfl
  unfold windowLow
  dsimp only
  by_cases hwide : oEst > defaultOWindow
  · rw [if_pos hwide]
    split <;> omega
  · rw [if_neg hwide]
    split <;> omega

theorem windowHigh_eq (oEst : Nat) : windowHigh oEst = min 511 (oEst + 6) := by
  have hmax : xclkOMax = 511 := rfl
  have hwindow : defaultOWindow = 6 := rfl
  unfold windowHigh
  dsimp only
  split <;> omega

def distance (targetHz achievedHz : Nat) : Nat :=
  if achievedHz > targetHz then achievedHz - targetHz else targetHz - achievedHz

/-- A divider outside the window is worse than the near end of the window. -/
theorem window_or_closer {fvcoHz : Nat} (hvco : vcoMinHz ≤ fvcoHz) (htarget : 0 < targetHz)
    (ho : xclkOMin ≤ o ∧ o ≤ xclkOMax) (hrate : noExceed = true → fvcoHz / o ≤ targetHz) :
    ∃ o', (windowLow (estimateO fvcoHz targetHz) ≤ o' ∧
        o' ≤ windowHigh (estimateO fvcoHz targetHz)) ∧
      (noExceed = true → fvcoHz / o' ≤ targetHz) ∧
      (o' = o ∨ distance targetHz (fvcoHz / o') < distance targetHz (fvcoHz / o)) := by
  have hquot : (fvcoHz + targetHz / 2) / targetHz * targetHz ≤ fvcoHz + targetHz / 2 :=
    Nat.div_mul_le_self _ _
  have hquot' : fvcoHz + targetHz / 2 < ((fvcoHz + targetHz / 2) / targetHz + 1) * targetHz :=
    (Nat.div_lt_iff_lt_mul htarget).mp (Nat.lt_succ_self _)
  generalize hq : (fvcoHz + targetHz / 2) / targetHz = q at hquot hquot'
  have hest := estimateO_eq fvcoHz targetHz
  rw [hq] at hest
  generalize estimateO fvcoHz targetHz = oEst at hest
  have hlow := windowLow_eq oEst
  have hhigh := windowHigh_eq oEst
  replace ho : 2 ≤ o ∧ o ≤ 511 := ho
  rcases Nat.lt_or_ge o (windowLow oEst) with hbelow | habove
  · -- all dividers up to the near end give at least the target, the near end the least
    have hover : targetHz ≤ fvcoHz / windowLow oEst := by
      refine (Nat.le_div_iff_mul_le (by omega)).mpr ?_
      have hmul : targetHz * windowLow oEst ≤ targetHz * (q - 6) :=
        Nat.mul_le_mul_left _ (by omega)
      rw [Nat.mul_sub targetHz q 6, Nat.mul_comm targetHz q] at hmul
      omega
    have hfalls : fvcoHz / windowLow oEst < fvcoHz / o :=
      rate_falls hvco (by omega) hbelow (show windowLow oEst ≤ 511 by omega)
    refine ⟨windowLow oEst, ⟨Nat.le_refl _, by omega⟩, fun hno => ?_, .inr ?_⟩
    · exact absurd (hrate hno) (by omega)
    · simp only [distance]
      split <;> split <;> omega
  · rcases Nat.lt_or_ge (windowHigh oEst) o with hbeyond | hwithin
    · -- all dividers from the near end on give less than the target, the near end the most
      have hunder : fvcoHz / windowHigh oEst < targetHz := by
        refine (Nat.div_lt_iff_lt_mul (by omega)).mpr ?_
        have hmul : (q + 1) * targetHz ≤ windowHigh oEst * targetHz :=
          Nat.mul_le_mul_right _ (by omega)
        rw [Nat.mul_comm targetHz]
        omega
      have hfalls : fvcoHz / o < fvcoHz / windowHigh oEst :=
        rate_falls hvco (by omega) hbeyond ho.2
      refine ⟨windowHigh oEst, ⟨by omega, Nat.le_refl _⟩, fun _ => Nat.le_of_lt hunder, .inr ?_⟩
      simp only [distance]
      split <;> split <;> omega
    · exact ⟨o, ⟨habove, hwithin⟩, hrate, .inl rfl⟩

/-- The triples that are offered, at any input. -/
theorem offered_ranges {c : ClockCandidate} (h : c ∈ offered primInHz targetHz noExceed) :
    (xclkMMin ≤ c.m ∧ c.m ≤ xclkMMax) ∧ (xclkDMin ≤ c.d ∧ c.d ≤ xclkDMax) ∧
      (xclkOMin ≤ c.o ∧ c.o ≤ xclkOMax) ∧ InLimits primInHz c.m c.d ∧
      (noExceed = true → primInHz * c.m / c.d / c.o ≤ targetHz) ∧
      c = candidateOf primInHz targetHz c.m c.d c.o := by
  obtain ⟨m, d, hm, hd, hc⟩ := mem_offered.mp h
  obtain ⟨hlimits, o, ho, hrate, rfl⟩ := mem_offeredFor.mp hc
  refine ⟨hm, hd, ?_, hlimits, hrate, rfl⟩
  rw [window, mem_upTo, windowLow_eq, windowHigh_eq] at ho
  show 2 ≤ o ∧ o ≤ 511
  omega

theorem offered_feasible {c : ClockCandidate} (h : c ∈ offered defaultPrimInHz targetHz noExceed) :
    Feasible defaultPrimInHz targetHz noExceed c.m c.d c.o ∧
      c = candidateOf defaultPrimInHz targetHz c.m c.d c.o := by
  obtain ⟨hm, hd, ho, hlimits, hrate, heq⟩ := offered_ranges h
  obtain ⟨hvco, hpfd⟩ := (inLimits_iff hd).mp hlimits
  refine ⟨⟨hm, hd, ho, hvco, hpfd, fun hno => ?_⟩, heq⟩
  rw [← Nat.div_div_eq_div_mul]
  exact hrate hno

/-- For every feasible triple something as good is offered. -/
theorem feasible_offered (htarget : 0 < targetHz)
    (h : Feasible defaultPrimInHz targetHz noExceed m d o) :
    ∃ c ∈ offered defaultPrimInHz targetHz noExceed,
      c.key ≤ (candidateOf defaultPrimInHz targetHz m d o).key := by
  have hlimits : InLimits defaultPrimInHz m d := (inLimits_iff h.div).mpr ⟨h.vco, h.pfd⟩
  have hvco : vcoMinHz ≤ defaultPrimInHz * m / d := by
    have hnot := hlimits.1
    omega
  have hrate : noExceed = true → defaultPrimInHz * m / d / o ≤ targetHz := by
    rw [Nat.div_div_eq_div_mul]
    exact h.rate
  obtain ⟨o', hwindow, hrate', hcloser⟩ := window_or_closer hvco htarget h.out hrate
  refine ⟨candidateOf defaultPrimInHz targetHz m d o', mem_offered.mpr ⟨m, d, h.mult, h.div,
    mem_offeredFor.mpr ⟨hlimits, o', mem_upTo.mpr hwindow, hrate', rfl⟩⟩, ?_⟩
  rcases hcloser with rfl | hcloser
  · exact le_refl _
  · exact le_of_lt (Prod.Lex.toLex_lt_toLex.mpr (.inl hcloser))

end

/-! ## The result -/

/-- The list is a shortlist of what was offered, in order. -/
theorem generate_best {primInHz targetHz : Nat} (htarget : 0 < targetHz) (noExceed : Bool)
    (cells : Nat → ClockCandidate) :
    ∃ b : Shortlist ClockCandidate, Shortlist.Best ClockCandidate.key defaultMaxCandidates
        (offered primInHz targetHz noExceed) b ∧
      (clockDriverGenerateCandidates primInHz targetHz defaultMaxCandidates noExceed
        cells).listed.Perm b.listed ∧
      (clockDriverGenerateCandidates primInHz targetHz defaultMaxCandidates noExceed
        cells).listed.Pairwise fun x y => x.key ≤ y.key := by
  have hbest := Shortlist.Best.of_offers candidateLess_iff
    (show 0 < defaultMaxCandidates by decide) (offered_nodup primInHz targetHz noExceed)
    cells
  rw [generate_eq (Nat.ne_of_gt htarget) (by decide)]
  exact ⟨_, hbest, Shortlist.sort_spec candidateLess_iff _⟩

/-- Whatever was offered, something as good is in the list. -/
theorem generate_covers (primInHz : Nat) {targetHz : Nat} (htarget : 0 < targetHz)
    (noExceed : Bool) (cells : Nat → ClockCandidate) :
    ∀ x ∈ offered primInHz targetHz noExceed,
      ∃ y ∈ (clockDriverGenerateCandidates primInHz targetHz defaultMaxCandidates noExceed
        cells).listed, y.key ≤ x.key := by
  intro x hx
  obtain ⟨b, hbest, hperm, -⟩ := generate_best htarget noExceed cells
  obtain ⟨y, hy, hle⟩ := hbest.covers (by decide) x hx
  exact ⟨y, hperm.mem_iff.mpr hy, hle⟩

/-- What is asked of a list of candidates. -/
structure RankedCandidates (primInHz targetHz : Nat) (noExceed : Bool)
    (cands : List ClockCandidate) : Prop where
  feasible : ∀ c ∈ cands, Feasible primInHz targetHz noExceed c.m c.d c.o ∧
    c = candidateOf primInHz targetHz c.m c.d c.o
  sorted : cands.Pairwise fun a b => clockDriverCandidateCmp a b ≤ 0
  nodup : cands.Nodup
  empty : cands = [] ↔ ∀ m d o, ¬ Feasible primInHz targetHz noExceed m d o
  best : ∀ c, cands.head? = some c → ∀ m d o, Feasible primInHz targetHz noExceed m d o →
    clockDriverCandidateCmp c (candidateOf primInHz targetHz m d o) ≤ 0

/-- Whatever the target, the list is as it should be, with the best of all triples first. -/
theorem clock_candidates_ranked (targetHz : Nat) (htarget : 0 < targetHz) (noExceed : Bool)
    (cells : Nat → ClockCandidate) :
    RankedCandidates defaultPrimInHz targetHz noExceed
      (clockDriverGenerateCandidates defaultPrimInHz targetHz defaultMaxCandidates noExceed
        cells).listed := by
  obtain ⟨b, hbest, hperm, hsorted⟩ := generate_best htarget noExceed cells
  have hcovered := generate_covers defaultPrimInHz htarget noExceed cells
  generalize (clockDriverGenerateCandidates defaultPrimInHz targetHz defaultMaxCandidates noExceed
    cells).listed = cands at hcovered hperm hsorted ⊢
  refine ⟨fun c hc => ?_, ?_, hperm.nodup_iff.mpr hbest.nodup, ⟨fun hnil m d o hf => ?_,
    fun hnone => ?_⟩, fun c hhead m d o hf => ?_⟩
  · exact offered_feasible (hbest.sub c (hperm.mem_iff.mp hc))
  · exact hsorted.imp fun hle => (candidateCmp_le_iff _ _).mpr hle
  · obtain ⟨x, hx, -⟩ := feasible_offered htarget hf
    obtain ⟨y, hy, -⟩ := hcovered x hx
    rw [hnil] at hy
    cases hy
  · rw [eq_nil_iff_forall_not_mem]
    intro c hc
    exact hnone _ _ _ (offered_feasible (hbest.sub c (hperm.mem_iff.mp hc))).1
  · obtain ⟨x, hx, hle⟩ := feasible_offered htarget hf
    obtain ⟨y, hy, hle'⟩ := hcovered x hx
    refine (candidateCmp_le_iff _ _).mpr (le_trans ?_ (le_trans hle' hle))
    obtain ⟨rest, hcons⟩ := List.head?_eq_some_iff.mp hhead
    rw [hcons] at hy hsorted
    rcases mem_cons.mp hy with rfl | hrest
    · exact le_refl _
    · exact (pairwise_cons.mp hsorted).1 y hrest

/-- 250 MHz, not to be exceeded. -/
theorem clock_candidates_ranked_250MHz : 0 < 250000000 ∧
    RankedCandidates defaultPrimInHz 250000000 true
      (clockDriverGenerateCandidates defaultPrimInHz 250000000 defaultMaxCandidates true
        fun _ => candidateOf 0 0 0 0 0).listed :=
  ⟨by decide, clock_candidates_ranked 250000000 (by decide) true fun _ => candidateOf 0 0 0 0 0⟩

end Slash.Vrtd
