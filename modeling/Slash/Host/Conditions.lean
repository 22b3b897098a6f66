import Slash.Host.Fixups

/-!
# Conditions on both sides

A condition is evaluated in one of two places. The CPU device reads the operands as values of
the scalar type and compares those (`CpuDevicePlan::evaluateCondition`). The firmware compares
the 32-bit word of a signal slot with a 32-bit word the host computed from the condition
(`mapRp1Condition`), and never learns the type.

The two agree as long as the word of the constant is the word in which the slot would hold the
value that the constant has in the scalar type.
-/

namespace Slash.Host

open Rp1 (U16 U32 CondOp)

def isFloatingScalarType (type : ScalarType) : Bool := type == .f32 || type == .f64

/-- `Condition::validate`, which every condition has passed when it is built. -/
def Condition.validate : Condition → Except String Unit
  | .always _ => .ok ()
  | .compare _ lhs rhs =>
    if lhs.type ≠ rhs.type then .error "Condition: operand scalar types must match exactly"
    else .ok ()
  | .epsilon _ lhs rhs tolerance =>
    if lhs.type ≠ rhs.type then .error "Condition: operand scalar types must match exactly"
    else if ¬ isFloatingScalarType lhs.type then
      .error "Condition: epsilon comparisons require F32 or F64 operands"
    else if tolerance.type ≠ lhs.type then
      .error "Condition: epsilon type must match comparison operands"
    else .ok ()

/-! ## The CPU device -/

namespace Cpu

/-- The floating-point comparisons of the host processor, on the bit patterns of two operands
of one type. -/
structure Floats where
  compare : CompareOp → ScalarType → U64 → U64 → Bool
  /-- the distance of the operands is at most the tolerance -/
  within : ScalarType → U64 → U64 → U64 → Bool

/-- `signedScalarValue`; `bitsAs` reads the low bytes of the pattern. -/
def signedScalarValue (type : ScalarType) (bits : U64) : Except String Int :=
  match type with
  | .i8 => .ok (bits.setWidth 8).toInt
  | .i16 => .ok (bits.setWidth 16).toInt
  | .i32 => .ok (bits.setWidth 32).toInt
  | .i64 => .ok bits.toInt
  | _ => .error "CpuDevice: scalar type is not signed integer"

def unsignedScalarValue (type : ScalarType) (bits : U64) : Except String Nat :=
  match type with
  | .u8 => .ok (bits.setWidth 8).toNat
  | .u16 => .ok (bits.setWidth 16).toNat
  | .u32 => .ok (bits.setWidth 32).toNat
  | .u64 => .ok bits.toNat
  | _ => .error "CpuDevice: scalar type is not unsigned integer"

def compareValues {α : Type} [LT α] [LE α] [DecidableEq α] [DecidableLT α] [DecidableLE α]
    (op : CompareOp) (lhs rhs : α) : Bool :=
  match op with
  | .lt => lhs < rhs
  | .le => lhs ≤ rhs
  | .eq => lhs = rhs
  | .gt => rhs < lhs
  | .ge => rhs ≤ lhs
  | .ne => lhs ≠ rhs

def scalarBits (values : ScalarValues) (key : ScalarKey) : Except String U64 :=
  match values.find key with
  | some bits => .ok bits
  | none => .error ("CpuDevice: scalar '" ++ key.name ++
      "' is not set before control-flow evaluation")

def operandBits (values : ScalarValues) : Operand → Except String U64
  | .constant _ bits => .ok bits
  | .scalar key _ => scalarBits values key

def evaluateCondition (floats : Floats) (values : ScalarValues) :
    Condition → Except String Bool
  | .always value => .ok value
  | .epsilon equal lhs rhs tolerance => do
    let l ← operandBits values lhs
    let r ← operandBits values rhs
    let e ← operandBits values tolerance
    let near := floats.within lhs.type l r e
    pure (if equal then near else !near)
  | .compare op lhs rhs => do
    let l ← operandBits values lhs
    let r ← operandBits values rhs
    if isFloatingScalarType lhs.type then
      pure (floats.compare op lhs.type l r)
    else if isSignedIntegerScalarType lhs.type then
      let a ← signedScalarValue lhs.type l
      let b ← signedScalarValue lhs.type r
      pure (compareValues op a b)
    else
      let a ← unsignedScalarValue lhs.type l
      let b ← unsignedScalarValue lhs.type r
      pure (compareValues op a b)

theorem compareValues_flip {α : Type} [LT α] [LE α] [DecidableEq α] [DecidableLT α]
    [DecidableLE α] (op : CompareOp) (a b : α) :
    compareValues (flipOperands op) a b = compareValues op b a := by
  cases op
  case eq => exact decide_eq_decide.mpr eq_comm
  case ne => exact decide_eq_decide.mpr ne_comm
  all_goals rfl

def compareIn (type : ScalarType) (op : CompareOp) (l r : U64) : Except String Bool :=
  if isSignedIntegerScalarType type then do
    let a ← signedScalarValue type l
    let b ← signedScalarValue type r
    pure (compareValues op a b)
  else do
    let a ← unsignedScalarValue type l
    let b ← unsignedScalarValue type r
    pure (compareValues op a b)

end Cpu

/-! ## The slot -/

/-- How a slot holds a value narrower than 32 bits. The host writes the low word of the scalar
map, where shorter patterns are zero-extended; a register that SCALAR_READ copies holds the
value extended as its type is. -/
inductive SlotForm where
  | pattern | register
  deriving DecidableEq, Repr

/-- The slot word of a value of an integer type of at most 32 bits. -/
def SlotForm.word (form : SlotForm) (type : ScalarType) (bits : U64) : U32 :=
  match form with
  | .pattern => (bits.setWidth (scalarBitWidth type)).setWidth 32
  | .register => (writeScalarToArgWords type bits).1

def isSlotType (type : ScalarType) : Bool :=
  isIntegerScalarType type && scalarBitWidth type ≤ 32

section Words

variable {form : SlotForm} {type : ScalarType}

/-- The pattern that a type reads from 64 bits. -/
def narrowed (type : ScalarType) (bits : U64) : Nat := bits.toNat % 2 ^ scalarBitWidth type

theorem signExtend_inj {w v : Nat} (h : w ≤ v) {x y : BitVec w} :
    x.signExtend v = y.signExtend v ↔ x = y := by
  refine ⟨fun heq => ?_, fun heq => by rw [heq]⟩
  rw [← BitVec.toInt_inj, ← BitVec.toInt_signExtend_of_le h, heq,
    BitVec.toInt_signExtend_of_le h]

theorem setWidth_inj {w v : Nat} (h : w ≤ v) {x y : BitVec w} :
    x.setWidth v = y.setWidth v ↔ x = y := by
  rw [← BitVec.toNat_inj, ← BitVec.toNat_inj, BitVec.toNat_setWidth_of_le h,
    BitVec.toNat_setWidth_of_le h]

theorem SlotForm.register_word (htype : isSlotType type = true) (bits : U64) :
    SlotForm.register.word type bits =
      if isSignedIntegerScalarType type then (bits.setWidth (scalarBitWidth type)).signExtend 32
      else (bits.setWidth (scalarBitWidth type)).setWidth 32 := by
  cases type with
  | u8 | u16 | i8 | i16 => rfl
  | u32 => exact (BitVec.setWidth_eq _).symm
  | i32 => exact (BitVec.signExtend_eq _).symm
  | u64 | i64 | f32 | f64 => cases htype

theorem isSlotType_width (htype : isSlotType type = true) : scalarBitWidth type ≤ 32 :=
  of_decide_eq_true (Bool.and_eq_true_iff.mp htype).2

theorem narrowed_eq_iff (a b : U64) : narrowed type a = narrowed type b ↔
    a.setWidth (scalarBitWidth type) = b.setWidth (scalarBitWidth type) := by
  rw [← BitVec.toNat_inj, BitVec.toNat_setWidth, BitVec.toNat_setWidth]
  rfl

theorem SlotForm.word_inj (htype : isSlotType type = true) (a b : U64) :
    form.word type a = form.word type b ↔ narrowed type a = narrowed type b := by
  have hwidth := isSlotType_width htype
  rw [narrowed_eq_iff]
  cases form with
  | pattern => exact setWidth_inj hwidth
  | register =>
    rw [register_word htype, register_word htype]
    split
    · exact signExtend_inj hwidth
    · exact setWidth_inj hwidth

theorem SlotForm.word_toNat (form : SlotForm) (htype : isSlotType type = true)
    (hsigned : isSignedIntegerScalarType type = false) (bits : U64) :
    (form.word type bits).toNat = narrowed type bits := by
  have hword : form.word type bits = (bits.setWidth (scalarBitWidth type)).setWidth 32 := by
    cases form with
    | pattern => rfl
    | register => rw [register_word htype, hsigned, if_neg Bool.false_ne_true]
  rw [hword, BitVec.toNat_setWidth_of_le (isSlotType_width htype), BitVec.toNat_setWidth]
  rfl

end Words

/-! ## Comparisons of patterns -/

namespace Cpu

variable {type : ScalarType}

theorem compareIn_unsigned (htype : isSlotType type = true)
    (hsigned : isSignedIntegerScalarType type = false) (op : CompareOp) (l r : U64) :
    compareIn type op l r = .ok (compareValues op (narrowed type l) (narrowed type r)) := by
  cases type with
  | u8 | u16 | u32 =>
    simp only [compareIn, isSignedIntegerScalarType, Bool.false_eq_true, if_false,
      unsignedScalarValue, BitVec.toNat_setWidth, narrowed, scalarBitWidth]
    rfl
  | i8 | i16 | i32 | i64 => cases hsigned
  | u64 | f32 | f64 => cases htype

theorem compareIn_flip (htype : isSlotType type = true) (op : CompareOp) (l r : U64) :
    compareIn type (flipOperands op) l r = compareIn type op r l := by
  cases type with
  | u8 | u16 | u32 | i8 | i16 | i32 =>
    exact congrArg Except.ok (compareValues_flip op _ _)
  | u64 | i64 | f32 | f64 => cases htype

theorem compareIn_eq (htype : isSlotType type = true) (l r : U64) :
    compareIn type .eq l r = .ok (decide (narrowed type l = narrowed type r)) ∧
    compareIn type .ne l r = .ok (decide (narrowed type l ≠ narrowed type r)) := by
  cases hsigned : isSignedIntegerScalarType type with
  | false => exact ⟨compareIn_unsigned htype hsigned .eq l r, compareIn_unsigned htype hsigned .ne l r⟩
  | true =>
    simp only [narrowed_eq_iff, ne_eq]
    cases type with
    | i8 | i16 | i32 =>
      simp only [compareIn, hsigned, if_true, signedScalarValue, scalarBitWidth,
        ← BitVec.toInt_inj]
      exact ⟨rfl, rfl⟩
    | u8 | u16 | u32 => cases hsigned
    | u64 | i64 | f32 | f64 => cases htype

end Cpu

/-! ## The mapped comparison -/

/-- The comparison that `mapRp1Condition` makes of `scalar OP constant`. -/
def rp1CompareOf (key : ScalarKey) (op : CompareOp) (bits : U64) : Rp1Compare :=
  let value : U32 := bits.setWidth 32
  match op with
  | .eq => ⟨.eq, value, key⟩
  | .ne => ⟨.ne, value, key⟩
  | .lt => ⟨.lt, value, key⟩
  | .ge => ⟨.ge, value, key⟩
  | .le => ⟨.lt, value + 1, key⟩
  | .gt => ⟨.ge, value + 1, key⟩

/-- What a condition that the firmware may evaluate looks like. -/
structure Accepted (cond : Condition) (key : ScalarKey) (type : ScalarType) (op : CompareOp)
    (bits : U64) : Prop where
  split : splitScalarConstant cond = some (key, type, op, bits)
  slotType : isSlotType type = true
  unsigned : isOrderingCompare op = true → isSignedIntegerScalarType type = false
  word : bits.toNat < 2 ^ 32
  next : op = .le ∨ op = .gt → bits.toNat + 1 < 2 ^ 32

theorem accepted_of_evaluable {cond : Condition} (h : isRp1EvaluableCondition cond = true) :
    ∃ key type op bits, Accepted cond key type op bits := by
  unfold isRp1EvaluableCondition at h
  split at h
  · cases h
  · rename_i key type op bits hsplit
    simp only [Bool.and_eq_true, decide_eq_true_eq, Bool.not_eq_true', Bool.and_eq_false_iff,
      Bool.or_eq_false_iff, beq_eq_false_iff_ne, BitVec.le_def] at h
    obtain ⟨⟨⟨⟨hint, hwidth⟩, hsigned⟩, hword⟩, hnext⟩ := h
    have hle : bits.toNat ≤ 0xFFFFFFFF := hword
    refine ⟨key, type, op, bits, hsplit, ?_, fun hop => ?_, by omega, fun hop => ?_⟩
    · exact Bool.and_eq_true_iff.mpr ⟨hint, decide_eq_true hwidth⟩
    · exact hsigned.resolve_left fun hno => Bool.false_ne_true (hno.symm.trans hop)
    · have hne : bits ≠ 0xFFFFFFFF#64 := hnext.resolve_left fun hno => hop.elim hno.1 hno.2
      have : bits.toNat ≠ 0xFFFFFFFF := fun heq => hne (BitVec.eq_of_toNat_eq heq)
      omega

section Accepted

variable {cond : Condition} {key : ScalarKey} {type : ScalarType} {op : CompareOp} {bits : U64}

theorem Accepted.mapped (h : Accepted cond key type op bits)
    (hok : isRp1EvaluableCondition cond = true) :
    mapRp1Condition cond = .ok (rp1CompareOf key op bits) := by
  unfold mapRp1Condition
  rw [if_pos hok, h.split]
  rfl

theorem Accepted.evaluated (h : Accepted cond key type op bits) (hvalid : cond.validate = .ok ())
    (floats : Cpu.Floats) (values : ScalarValues) {scalar : U64}
    (hscalar : Cpu.scalarBits values key = .ok scalar) :
    Cpu.evaluateCondition floats values cond = Cpu.compareIn type op scalar bits := by
  have hsplit := h.split
  have hfloat : isFloatingScalarType type = false := by
    have := h.slotType
    cases type <;> first | rfl | cases this
  unfold splitScalarConstant at hsplit
  split at hsplit
  · cases hsplit
    simp only [Cpu.evaluateCondition, Cpu.operandBits, hscalar, Operand.type, hfloat,
      Bool.false_eq_true, if_false, Cpu.compareIn]
    rfl
  · cases hsplit
    rename_i flipped constantType
    have heq : constantType = type := by
      by_contra hne
      simp [Condition.validate, Operand.type, hne] at hvalid
    subst heq
    simp only [Cpu.evaluateCondition, Cpu.operandBits, hscalar, Operand.type, hfloat,
      Bool.false_eq_true, if_false]
    rw [Cpu.compareIn_flip h.slotType]
    rfl
  · cases hsplit

end Accepted

/-- The inverted operator answers the negation, on every operator of the protocol. -/
theorem compare_invert (v value : U32) {op : CondOp} (hop : ∀ code, op ≠ .bad code) :
    Rp1.compare v (invertRp1Op op) value = !Rp1.compare v op value := by
  cases op with
  | eq | ne | andNz | andZ =>
    simp only [Rp1.compare, invertRp1Op, ne_eq, decide_not, Bool.not_not]
  | lt => exact (decide_eq_decide.mpr BitVec.not_lt.symm).trans decide_not
  | ge => exact (decide_eq_decide.mpr BitVec.not_le.symm).trans decide_not
  | bad code => exact absurd rfl (hop code)

theorem rp1CompareOf_op (key : ScalarKey) (op : CompareOp) (bits : U64) (code : U16) :
    (rp1CompareOf key op bits).op ≠ .bad code := by
  cases op <;> simp [rp1CompareOf]

/-! ## Agreement -/

/-- The condition as the firmware evaluates it: the mapped comparison answers what the CPU device
answers on the same scalar, and the inverted one its negation. -/
def Rp1Agrees (floats : Cpu.Floats) (form : SlotForm) (cond : Condition) : Prop :=
  ∃ key type op bits m, splitScalarConstant cond = some (key, type, op, bits) ∧
    mapRp1Condition cond = .ok m ∧ m.key = key ∧
    ∀ values scalar, Cpu.scalarBits values key = .ok scalar →
      ∃ truth, Cpu.evaluateCondition floats values cond = .ok truth ∧
        Rp1.compare (form.word type scalar) m.op m.value = truth ∧
        Rp1.compare (form.word type scalar) (invertRp1Op m.op) m.value = !truth

/-- The word of the constant is the one in which a slot holds the value of the constant; or the
constant reads as the largest value of the type, and every value compares alike. -/
def Condition.constantHeld (form : SlotForm) (cond : Condition) : Bool :=
  match splitScalarConstant cond with
  | none => false
  | some (_, type, op, bits) =>
    form.word type bits == bits.setWidth 32 ||
      ((op == .le || op == .gt) && narrowed type bits == 2 ^ scalarBitWidth type - 1)

section Agreement

variable {form : SlotForm} {cond : Condition} {key : ScalarKey} {type : ScalarType}
  {op : CompareOp} {bits : U64}

theorem Accepted.value_toNat (h : Accepted cond key type op bits) :
    (bits.setWidth 32).toNat = bits.toNat := by
  rw [BitVec.toNat_setWidth, Nat.mod_eq_of_lt h.word]

theorem Accepted.next_toNat (h : Accepted cond key type op bits) (hop : op = .le ∨ op = .gt) :
    (bits.setWidth 32 + 1 : U32).toNat = bits.toNat + 1 := by
  rw [BitVec.toNat_add, h.value_toNat]
  exact Nat.mod_eq_of_lt (h.next hop)

/-- An unsigned constant is its own slot word when the type reads all of it. -/
theorem Accepted.held_iff (h : Accepted cond key type op bits)
    (hsigned : isSignedIntegerScalarType type = false) :
    form.word type bits = bits.setWidth 32 ↔ narrowed type bits = bits.toNat := by
  rw [← BitVec.toNat_inj, SlotForm.word_toNat _ h.slotType hsigned, h.value_toNat]

/-- Every value below the bound of a slot type is the pattern of some scalar. -/
theorem exists_narrowed (htype : isSlotType type = true) {x : Nat}
    (hx : x < 2 ^ scalarBitWidth type) : ∃ scalar : U64, narrowed type scalar = x := by
  have hbound : 2 ^ scalarBitWidth type ≤ 2 ^ 64 :=
    Nat.pow_le_pow_right (by decide) (Nat.le_trans (isSlotType_width htype) (by decide))
  refine ⟨BitVec.ofNat 64 x, ?_⟩
  rw [narrowed, BitVec.toNat_ofNat, Nat.mod_eq_of_lt (Nat.lt_of_lt_of_le hx hbound),
    Nat.mod_eq_of_lt hx]

theorem narrowed_lt (type : ScalarType) (bits : U64) :
    narrowed type bits < 2 ^ scalarBitWidth type :=
  Nat.mod_lt _ (Nat.two_pow_pos _)

theorem narrowed_le (type : ScalarType) (bits : U64) : narrowed type bits ≤ bits.toNat :=
  Nat.mod_le _ _

/-- Equality: the slot word of the constant's own value has to be the constant's word. -/
theorem Accepted.equality_iff (h : Accepted cond key type op bits) :
    (∀ scalar, (narrowed type scalar = narrowed type bits ↔
      form.word type scalar = bits.setWidth 32)) ↔ form.word type bits = bits.setWidth 32 := by
  refine ⟨fun hall => (hall bits).mp rfl, fun hheld scalar => ?_⟩
  rw [← hheld, SlotForm.word_inj h.slotType]

/-- Ordering against the constant: a constant that the type cuts is above every value of the
type, and its remainder is not. -/
theorem ordering_iff (type : ScalarType) (bits : U64) :
    (∀ scalar, (narrowed type scalar < narrowed type bits ↔
      narrowed type scalar < bits.toNat)) ↔ narrowed type bits = bits.toNat := by
  refine ⟨fun hall => ?_, fun hheld scalar => by rw [hheld]⟩
  have hself := hall bits
  have hle := narrowed_le type bits
  omega

/-- Ordering against the next value: the constant may also be cut to the largest value. -/
theorem Accepted.nextOrdering_iff (h : Accepted cond key type op bits) :
    (∀ scalar, (narrowed type scalar ≤ narrowed type bits ↔
      narrowed type scalar < bits.toNat + 1)) ↔
    narrowed type bits = bits.toNat ∨ narrowed type bits = 2 ^ scalarBitWidth type - 1 := by
  have hle := narrowed_le type bits
  have hlt := narrowed_lt type bits
  refine ⟨fun hall => ?_, fun hheld scalar => ?_⟩
  · -- the value after the remainder is the first on which the two could differ
    by_contra hnot
    obtain ⟨scalar, hscalar⟩ := exists_narrowed h.slotType
      (show narrowed type bits + 1 < 2 ^ scalarBitWidth type by omega)
    have hnext := hall scalar
    omega
  · have hbound := narrowed_lt type scalar
    omega

/-- Both sides compare alike, for every scalar. -/
def Accepted.Same (_ : Accepted cond key type op bits) (form : SlotForm) : Prop :=
  ∀ scalar, Cpu.compareIn type op scalar bits =
    .ok (Rp1.compare (form.word type scalar) (rp1CompareOf key op bits).op
      (rp1CompareOf key op bits).value)

theorem Accepted.same_iff (h : Accepted cond key type op bits) :
    h.Same form ↔ cond.constantHeld form = true := by
  have hcond : cond.constantHeld form = true ↔ form.word type bits = bits.setWidth 32 ∨
      ((op = .le ∨ op = .gt) ∧ narrowed type bits = 2 ^ scalarBitWidth type - 1) := by
    rw [Condition.constantHeld, h.split]
    simp
  rw [hcond]
  cases op with
  | eq =>
    simp only [reduceCtorEq, or_self, false_and, or_false]
    rw [← h.equality_iff]
    refine forall_congr' fun scalar => ?_
    rw [(Cpu.compareIn_eq h.slotType scalar bits).1, Except.ok.injEq]
    exact decide_eq_decide
  | ne =>
    simp only [reduceCtorEq, or_self, false_and, or_false]
    rw [← h.equality_iff]
    refine forall_congr' fun scalar => ?_
    rw [(Cpu.compareIn_eq h.slotType scalar bits).2, Except.ok.injEq]
    exact decide_eq_decide.trans not_iff_not
  | lt =>
    have hsigned := h.unsigned rfl
    simp only [reduceCtorEq, or_self, false_and, or_false]
    rw [h.held_iff hsigned, ← ordering_iff]
    refine forall_congr' fun scalar => ?_
    rw [Cpu.compareIn_unsigned h.slotType hsigned, Except.ok.injEq,
      ← SlotForm.word_toNat form h.slotType hsigned scalar, ← h.value_toNat]
    exact decide_eq_decide
  | ge =>
    have hsigned := h.unsigned rfl
    simp only [reduceCtorEq, or_self, false_and, or_false]
    rw [h.held_iff hsigned, ← ordering_iff]
    refine forall_congr' fun scalar => ?_
    rw [Cpu.compareIn_unsigned h.slotType hsigned, Except.ok.injEq,
      ← SlotForm.word_toNat form h.slotType hsigned scalar, ← h.value_toNat]
    simp only [Cpu.compareValues, Rp1.compare, rp1CompareOf, decide_eq_decide, ge_iff_le,
      BitVec.le_def]
    omega
  | le =>
    have hsigned := h.unsigned rfl
    simp only [true_or, true_and]
    rw [h.held_iff hsigned, ← h.nextOrdering_iff]
    refine forall_congr' fun scalar => ?_
    rw [Cpu.compareIn_unsigned h.slotType hsigned, Except.ok.injEq,
      ← SlotForm.word_toNat form h.slotType hsigned scalar, ← h.next_toNat (.inl rfl)]
    exact decide_eq_decide
  | gt =>
    have hsigned := h.unsigned rfl
    simp only [or_true, true_and]
    rw [h.held_iff hsigned, ← h.nextOrdering_iff]
    refine forall_congr' fun scalar => ?_
    rw [Cpu.compareIn_unsigned h.slotType hsigned, Except.ok.injEq,
      ← SlotForm.word_toNat form h.slotType hsigned scalar, ← h.next_toNat (.inr rfl)]
    simp only [Cpu.compareValues, Rp1.compare, rp1CompareOf, decide_eq_decide, ge_iff_le,
      BitVec.le_def]
    omega

theorem scalarBits_single (key : ScalarKey) (scalar : U64) :
    Cpu.scalarBits [(scalarKeyText (some key), scalar)] key = .ok scalar := by
  simp [Cpu.scalarBits, ScalarValues.find]

end Agreement

/-- A condition that the firmware may evaluate answers there what it answers on the CPU device,
for every value of its scalar, exactly if its constant is in the form of the slot. -/
theorem rp1_condition_agrees (floats : Cpu.Floats) (form : SlotForm) (cond : Condition)
    (hvalid : cond.validate = .ok ()) (hok : isRp1EvaluableCondition cond = true) :
    Rp1Agrees floats form cond ↔ cond.constantHeld form = true := by
  obtain ⟨key, type, op, bits, h⟩ := accepted_of_evaluable hok
  rw [← h.same_iff]
  constructor
  · rintro ⟨key', type', op', bits', m, hsplit, hm, hkey, hall⟩ scalar
    rw [h.split] at hsplit
    cases hsplit
    rw [h.mapped hok] at hm
    cases hm
    obtain ⟨truth, heval, hsame, -⟩ := hall _ scalar (scalarBits_single key scalar)
    rw [h.evaluated hvalid floats _ (scalarBits_single key scalar)] at heval
    rw [heval, hsame]
  · intro hsame
    refine ⟨key, type, op, bits, _, h.split, h.mapped hok, ?_, fun values scalar hscalar => ?_⟩
    · cases op <;> rfl
    · rw [h.evaluated hvalid floats values hscalar, hsame scalar]
      exact ⟨_, rfl, rfl, compare_invert _ _ (rp1CompareOf_op key op bits)⟩

/-! ## A counter of eight bits -/

/-- `level OP bits` for a U8 scalar of the root scope. -/
def levelCondition (op : CompareOp) (bits : U64) : Condition :=
  .compare op (.scalar ⟨0, "level"⟩ .u8) (.constant .u8 bits)

def noFloats : Cpu.Floats := ⟨fun _ _ _ _ => false, fun _ _ _ _ => false⟩

/-- `level <= 9`, which the firmware evaluates as `level < 10`. -/
theorem level_at_most_nine : Rp1Agrees noFloats .register (levelCondition .le 9) :=
  (rp1_condition_agrees noFloats .register (levelCondition .le 9) rfl (by decide)).mpr (by decide)

/-- `level < 256`: the constant reads as 0 in the type of the scalar, so the CPU device answers
false for every level, and the firmware answers true. -/
theorem level_below_256_differs :
    (levelCondition .lt 256).validate = .ok () ∧
    isRp1EvaluableCondition (levelCondition .lt 256) = true ∧
    mapRp1Condition (levelCondition .lt 256) = .ok ⟨.lt, 256, ⟨0, "level"⟩⟩ ∧
    Cpu.evaluateCondition noFloats [("scope:0:level", 7)] (levelCondition .lt 256) = .ok false ∧
    Rp1.compare (SlotForm.pattern.word .u8 7) .lt 256 = true :=
  ⟨rfl, by decide, rfl, rfl, by decide⟩

end Slash.Host
