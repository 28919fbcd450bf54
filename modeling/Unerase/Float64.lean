/-!
Binary floating-point literals. A literal is stored and compared, never
computed with, so its bit pattern is all that is kept.
-/

namespace Unerase

/-- A double-precision number, given by its bits: sign, exponent, fraction. -/
structure Float64 where
  bits : UInt64

namespace Float64

/-- The bits without the sign. -/
def magnitude (x : Float64) : UInt64 :=
  x.bits &&& 0x7fffffffffffffff

/-- The exponent is all ones and the fraction is not zero. -/
def isNaN (x : Float64) : Bool :=
  0x7ff0000000000000 < x.magnitude

/-- Comparison of numbers: a NaN differs from everything, itself included, and
the two zeros are equal. -/
def equal (x y : Float64) : Bool :=
  !x.isNaN && !y.isNaN &&
    (x.bits == y.bits || x.magnitude == 0 && y.magnitude == 0)

instance : BEq Float64 := ⟨equal⟩

theorem beq_self_iff (x : Float64) : (x == x) = true ↔ x.isNaN = false := by
  show equal x x = true ↔ _
  simp [equal]

end Float64

end Unerase
