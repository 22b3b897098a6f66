import Mathlib.Algebra.Group.Nat.Defs
import Slash.Lib.Shortlist

/-!
# The clock driver

The clock of a region comes out of a clocking wizard: the input is multiplied by `M`, divided by
`D` and then by `O`. To set a rate the driver makes a shortlist of triples, programs one after the
other into the registers of the wizard and takes the first that locks. To get a rate it decodes
the registers.

The registers are plain storage. Whether a wizard locks in time is not up to the driver: the
outcome for each candidate tried is given.
-/

namespace Slash.Vrtd

open Lib

abbrev U32 := BitVec 32

/-! ## Limits -/

def xclkMhz : Nat := 1000000

def xclkMMin : Nat := 5

def xclkMMax : Nat := 432

def xclkDMin : Nat := 1

def xclkDMax : Nat := 123

def xclkOMin : Nat := 2

def xclkOMax : Nat := 511

def vcoMinHz : Nat := 2160 * xclkMhz

def vcoMaxHz : Nat := 4320 * xclkMhz

def pfdMinHz : Nat := 10 * xclkMhz

def pfdMaxHz : Nat := 500 * xclkMhz

def defaultPrimInHz : Nat := 100000000

def defaultMaxCandidates : Nat := 50

def defaultOWindow : Nat := 6

/-! ## Candidates -/

structure ClockCandidate where
  diffHz : Nat
  achievedHz : Nat
  m : Nat
  d : Nat
  o : Nat
  fvcoHz : Nat
  deriving DecidableEq, Repr

/-- `0` if `o` is divisible by `n`. -/
def oddness (n o : Nat) : Nat := if o % n = 0 then 0 else 1

def clockDriverCandidateCmp (a b : ClockCandidate) : Int :=
  if a.diffHz ≠ b.diffHz then
    if a.diffHz < b.diffHz then -1 else 1
  else if oddness 4 a.o ≠ oddness 4 b.o then
    if oddness 4 a.o < oddness 4 b.o then -1 else 1
  else if oddness 2 a.o ≠ oddness 2 b.o then
    if oddness 2 a.o < oddness 2 b.o then -1 else 1
  else if a.fvcoHz ≠ b.fvcoHz then
    if a.fvcoHz > b.fvcoHz then -1 else 1
  else if a.o ≠ b.o then
    if a.o < b.o then -1 else 1
  else 0

def candidateLess (a b : ClockCandidate) : Bool := clockDriverCandidateCmp a b < 0

def candidateOf (primInHz targetHz m d o : Nat) : ClockCandidate :=
  let fvcoHz := primInHz * m / d
  let achievedHz := fvcoHz / o
  { diffHz := if achievedHz > targetHz then achievedHz - targetHz else targetHz - achievedHz
    achievedHz, m, d, o, fvcoHz }

/-- The estimate of the output divider, in its limits. -/
def estimateO (fvcoHz targetHz : Nat) : Nat :=
  let oEst := (fvcoHz + targetHz / 2) / targetHz
  if oEst < xclkOMin then xclkOMin else if oEst > xclkOMax then xclkOMax else oEst

def windowLow (oEst : Nat) : Nat :=
  let oLo := if oEst > defaultOWindow then oEst - defaultOWindow else xclkOMin
  if oLo < xclkOMin then xclkOMin else oLo

def windowHigh (oEst : Nat) : Nat :=
  let oHi := oEst + defaultOWindow
  if oHi > xclkOMax then xclkOMax else oHi

/-- The numbers from `lo` to `hi`, as a loop runs over them. -/
def upTo (lo hi : Nat) : List Nat := List.range' lo (hi + 1 - lo)

def searchO (primInHz targetHz maxCandidates : Nat) (noExceed : Bool) (m d : Nat)
    (cands : Shortlist ClockCandidate) (o : Nat) : Shortlist ClockCandidate :=
  if noExceed && (primInHz * m / d / o > targetHz : Bool) then cands
  else cands.offer candidateLess maxCandidates (candidateOf primInHz targetHz m d o)

def searchD (primInHz targetHz maxCandidates : Nat) (noExceed : Bool) (m : Nat)
    (cands : Shortlist ClockCandidate) (d : Nat) : Shortlist ClockCandidate :=
  let fvcoHz := primInHz * m / d
  let pfdHz := primInHz / d
  if fvcoHz < vcoMinHz ∨ fvcoHz > vcoMaxHz then cands
  else if pfdHz < pfdMinHz ∨ pfdHz > pfdMaxHz then cands
  else
    let oEst := estimateO fvcoHz targetHz
    (upTo (windowLow oEst) (windowHigh oEst)).foldl
      (searchO primInHz targetHz maxCandidates noExceed m d) cands

/-- `cells` is what the array holds when it comes. -/
def clockDriverGenerateCandidates (primInHz targetHz maxCandidates : Nat) (noExceed : Bool)
    (cells : Nat → ClockCandidate) : Shortlist ClockCandidate :=
  if targetHz = 0 ∨ maxCandidates = 0 then ⟨0, cells⟩
  else
    ((upTo xclkMMin xclkMMax).foldl (fun cands m => (upTo xclkDMin xclkDMax).foldl
      (searchD primInHz targetHz maxCandidates noExceed m) cands) ⟨0, cells⟩).sort candidateLess

/-! ## Registers -/

def xclkWizReconfigOffset : Nat := 0x14
def xclkWizReg1Offset : Nat := 0x330
def xclkWizReg2Offset : Nat := 0x334
def xclkWizReg3Offset : Nat := 0x338
def xclkWizReg11Offset : Nat := 0x378
def xclkWizReg12Offset : Nat := 0x380
def xclkWizReg13Offset : Nat := 0x384
def xclkWizReg14Offset : Nat := 0x398
def xclkWizReg15Offset : Nat := 0x39C
def xclkWizReg16Offset : Nat := 0x3A0
def xclkWizReg17Offset : Nat := 0x3A8
def xclkWizReg19Offset : Nat := 0x3CC
def xclkWizReg25Offset : Nat := 0x3F0
def xclkWizReg26Offset : Nat := 0x3FC

structure ClockDriver where
  regs : Nat → U32
  primInHz : U32
  m : U32
  d : U32
  o : U32

def ClockDriver.r32 (clk : ClockDriver) (offset : Nat) : U32 := clk.regs (offset / 4)

def ClockDriver.w32 (clk : ClockDriver) (offset : Nat) (value : U32) : ClockDriver :=
  { clk with regs := upd clk.regs (offset / 4) value }

def clockDriverReg (wizardOffset regOffset : Nat) : Nat := wizardOffset + regOffset

def bit (n : Nat) : U32 := (1 : U32) <<< n

def flag (reg mask : U32) : U32 := if reg &&& mask ≠ 0 then 1 else 0

/-- The two counts of a divider register. -/
def lowCount (reg : U32) : U32 := reg &&& 0xFF

def highCount (reg : U32) : U32 := (reg &&& 0xFF00) >>> 8

def orOne (x : U32) : U32 := if x = 0 then 1 else x

def clockDriverGetVcoHz (clk : ClockDriver) (wizardOffset : Nat) : Nat :=
  let edge := flag (clk.r32 (clockDriverReg wizardOffset xclkWizReg1Offset)) 0x100
  let reg2 := clk.r32 (clockDriverReg wizardOffset xclkWizReg2Offset)
  let mult := orOne (lowCount reg2 + highCount reg2 + edge)
  let reg13 := clk.r32 (clockDriverReg wizardOffset xclkWizReg13Offset)
  let edge := flag (clk.r32 (clockDriverReg wizardOffset xclkWizReg12Offset)) (bit 10)
  let div := orOne (lowCount reg13 + highCount reg13 + edge)
  clk.primInHz.toNat * mult.toNat / div.toNat

def clockWizardLeafOffset (clockId : Nat) : Nat :=
  if clockId < 3 then xclkWizReg3Offset + clockId * 8 else xclkWizReg19Offset + (clockId - 3) * 8

/-- The control word and the counts of a leaf divider. -/
def clockWizardEncodeLeaf (o : U32) : U32 × U32 :=
  let o := if o > 511 then 511 else o
  let highTime := o / 4
  let divEdge : U32 := if o % 4 ≤ 1 then 0 else 1
  let p5Enable := o % 2
  let p5fEdge := o % 2
  (bit 11 ||| bit 12 ||| bit 9 ||| (divEdge <<< 8) ||| (p5Enable <<< 13) |||
    (p5fEdge <<< 15), highTime ||| (highTime <<< 8))

def clockWizardDecodeLeaf (ctrl counts : U32) : U32 :=
  let edge := flag ctrl (bit 8)
  let p5en := flag ctrl (bit 13)
  let prediv := flag ctrl (bit 11)
  let leaf := highCount counts + lowCount counts + edge
  orOne ((prediv + 1) * leaf + prediv * p5en)

def clockDriverGetRateHz (clk : ClockDriver) (wizardOffset clockId : Nat) : Nat :=
  let fvco := clockDriverGetVcoHz clk wizardOffset
  let regOff := clockDriverReg wizardOffset (clockWizardLeafOffset clockId)
  fvco / (clockWizardDecodeLeaf (clk.r32 regOff) (clk.r32 (regOff + 4))).toNat

/-! ## Programming -/

def clockDriverUpdateO (clk : ClockDriver) (wizardOffset clockId : Nat) : ClockDriver :=
  let regOff := clockDriverReg wizardOffset (clockWizardLeafOffset clockId)
  (clk.w32 regOff (clockWizardEncodeLeaf clk.o).1).w32 (regOff + 4) (clockWizardEncodeLeaf clk.o).2

/-- The counts of `M` and of `D`. -/
def encodeCounts (x : U32) : U32 := (x / 2) ||| ((x / 2) <<< 8)

def clockDriverUpdateD (clk : ClockDriver) (wizardOffset : Nat) : ClockDriver :=
  (clk.w32 (clockDriverReg wizardOffset xclkWizReg12Offset) ((clk.d % 2) <<< 10)).w32
    (clockDriverReg wizardOffset xclkWizReg13Offset) (encodeCounts clk.d)

/-- `REG1` for a multiplier. -/
def encodeReg1 (m : U32) : U32 :=
  let reg : U32 := bit 12 ||| bit 9 ||| bit 10
  if m % 2 ≠ 0 then reg ||| bit 8 else reg &&& ~~~ bit 8

def clockDriverUpdateM (clk : ClockDriver) (wizardOffset : Nat) : ClockDriver :=
  ((clk.w32 (clockDriverReg wizardOffset xclkWizReg25Offset) 0).w32
    (clockDriverReg wizardOffset xclkWizReg2Offset) (encodeCounts clk.m)).w32
    (clockDriverReg wizardOffset xclkWizReg1Offset) (encodeReg1 clk.m)

def commonTail : List (Nat × U32) :=
  [(xclkWizReg11Offset, 0x2E), (xclkWizReg14Offset, 0xE80), (xclkWizReg15Offset, 0x4271),
    (xclkWizReg16Offset, 0x43E9), (xclkWizReg17Offset, 0x001C), (xclkWizReg26Offset, 0x0001)]

def clockDriverProgramCommonTail (clk : ClockDriver) (wizardOffset : Nat) : ClockDriver :=
  commonTail.foldl (fun clk w => clk.w32 (clockDriverReg wizardOffset w.1) w.2) clk

def clockDriverTriggerReconfig (clk : ClockDriver) (wizardOffset : Nat) : ClockDriver :=
  clk.w32 (clockDriverReg wizardOffset xclkWizReconfigOffset) 3

/-- Everything up to the wait for the lock. -/
def clockDriverProgramMdo (clk : ClockDriver) (wizardOffset clockId : Nat) : ClockDriver :=
  let clk := clk.w32 (clockDriverReg wizardOffset xclkWizReg25Offset) 0
  let clk := clockDriverUpdateO clk wizardOffset clockId
  let clk := clockDriverUpdateD clk wizardOffset
  let clk := clockDriverUpdateM clk wizardOffset
  let clk := clockDriverProgramCommonTail clk wizardOffset
  clockDriverTriggerReconfig clk wizardOffset

inductive ClockError where
  | invalidArgument
  | range
  | timedOut
  deriving DecidableEq, Repr

/-- The candidates in order, until one locks. `locks` says which candidate tried does. The reply is
the rate read back, cut to 32 bits. -/
def tryCandidates (wizardOffset clockId : Nat) (locks : Nat → Bool) :
    ClockDriver → List (Nat × ClockCandidate) → ClockDriver × Except ClockError U32
  | clk, [] => (clk, .error .timedOut)
  | clk, (i, cand) :: cands =>
    let clk := { clk with
      m := BitVec.ofNat 32 cand.m, d := BitVec.ofNat 32 cand.d, o := BitVec.ofNat 32 cand.o }
    let clk := clockDriverProgramMdo clk wizardOffset clockId
    if locks i then (clk, .ok (BitVec.ofNat 32 (clockDriverGetRateHz clk wizardOffset clockId)))
    else tryCandidates wizardOffset clockId locks clk cands

def clockDriverTrySetRateHz (clk : ClockDriver) (wizardOffset clockId : Nat) (rateHz : U32)
    (noExceed : Bool) (cells : Nat → ClockCandidate) (locks : Nat → Bool) :
    ClockDriver × Except ClockError U32 :=
  if rateHz = 0 then (clk, .error .invalidArgument)
  else
    let candidates := clockDriverGenerateCandidates clk.primInHz.toNat rateHz.toNat
      defaultMaxCandidates noExceed cells
    if candidates.count = 0 then (clk, .error .range)
    else tryCandidates wizardOffset clockId locks clk
      ((List.range candidates.count).zip candidates.listed)

def clockDriverWizardClkoutId : Nat := 0

end Slash.Vrtd
