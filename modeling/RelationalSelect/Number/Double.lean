set_option autoImplicit false

namespace RelationalSelect

structure Double where
  bits : UInt64
  deriving DecidableEq

namespace Double

def negative (x : Double) : Bool := x.bits.toNat / Nat.pow 2 63 == 1

def exponentField (x : Double) : Nat := x.bits.toNat / Nat.pow 2 52 % Nat.pow 2 11

def fractionField (x : Double) : Nat := x.bits.toNat % Nat.pow 2 52

def isNaN (x : Double) : Bool := x.exponentField == 2047 && x.fractionField != 0

def isInfinite (x : Double) : Bool := x.exponentField == 2047 && x.fractionField == 0

def isZero (x : Double) : Bool := x.exponentField == 0 && x.fractionField == 0

/-- A finite number is its significand times two to its exponent, up to sign. The leading bit
of the significand is not stored, and is missing in the numbers closest to zero. -/
def significand (x : Double) : Nat :=
  if x.exponentField = 0 then x.fractionField else Nat.pow 2 52 + x.fractionField

def exponent (x : Double) : Int := (max x.exponentField 1 : Nat) - 1075

/-- At a power of two the next smaller number is half as far away as the next larger one, except
where the numbers closest to zero begin. -/
def narrowBelow (x : Double) : Bool := x.fractionField == 0 && decide (1 < x.exponentField)

def numEq (x y : Double) : Bool :=
  !x.isNaN && !y.isNaN && (x == y || x.isZero && y.isZero)

theorem numEq_comm (x y : Double) : x.numEq y = y.numEq x := by
  simp [numEq, Bool.and_comm, Bool.and_assoc, BEq.comm]

theorem numEq_self_iff (x : Double) : x.numEq x = true ↔ x.isNaN = false := by
  cases h : x.isNaN <;> simp [numEq, h]

end Double

end RelationalSelect
