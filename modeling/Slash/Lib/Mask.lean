import Mathlib.Data.List.Basic

/-!
# Bit masks

A barrier word holds one bit per completion, a packet awaits a mask of them. `Covers have need`
is the scanner's test `(have & need) == need`; read bitwise it says that every bit asked for is
set, which is the form every proof uses.
-/

namespace Slash.Lib

variable {w : Nat}

/-- Every bit of `need` is set in `held`. -/
def Covers (held need : BitVec w) : Prop := held &&& need = need

instance (held need : BitVec w) : Decidable (Covers held need) :=
  inferInstanceAs (Decidable (held &&& need = need))

@[simp] theorem covers_zero (held : BitVec w) : Covers held 0 := by
  simp [Covers]

end Slash.Lib
