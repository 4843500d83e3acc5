import RelationalSelect.Number.Double

/-!
The decimal with the fewest digits that reads back as a given double, and of those the one closest
to it.

A decimal reads back as a double when it lies between the points halfway to the two neighbours of
the double; the halfway points themselves belong to the double with the even significand. The
search goes from coarse decimal grids to fine ones. On each grid only the two points next to the
value can be the closest that reads back, so two tests settle a grid. All arithmetic is exact.
-/

set_option autoImplicit false

namespace RelationalSelect

structure Decimal where
  digits : Nat
  exponent : Int
  deriving DecidableEq

/-- The reals that round to one double: the ends of the interval and the double itself, each as a
whole number of units of two to the `scale`. -/
structure Rounding where
  low : Nat
  value : Nat
  high : Nat
  scale : Int
  closed : Bool

namespace Rounding

/-- A quarter of the last place is small enough to name the halfway points. -/
def ofDouble (x : Double) : Rounding where
  low := 4 * x.significand - if x.narrowBelow then 1 else 2
  value := 4 * x.significand
  high := 4 * x.significand + 2
  scale := x.exponent - 2
  closed := x.significand % 2 == 0

variable (r : Rounding)

/-- Units and points of the grid of ten to the `e` have a common measure: a unit is `unit e` of
it, and the distance of the points `step e`. -/
def unit (e : Int) : Nat := Nat.pow 2 r.scale.toNat * Nat.pow 10 (-e).toNat

def step (e : Int) : Nat := Nat.pow 2 (-r.scale).toNat * Nat.pow 10 e.toNat

def holds (e : Int) (d : Nat) : Bool :=
  if r.closed then
    decide (r.low * r.unit e ≤ d * r.step e) && decide (d * r.step e ≤ r.high * r.unit e)
  else
    decide (r.low * r.unit e < d * r.step e) && decide (d * r.step e < r.high * r.unit e)

def floor (e : Int) : Nat := r.value * r.unit e / r.step e

/-- The point of the grid closest to the value, if it rounds to the double. The larger of two
points that are equally close is taken. -/
def closest? (e : Int) : Option Nat :=
  let d := r.floor e
  match r.holds e d, r.holds e (d + 1) with
  | true, true =>
      some (if 2 * (r.value * r.unit e) < (2 * d + 1) * r.step e then d else d + 1)
  | true, false => some d
  | false, true => some (d + 1)
  | false, false => none

def exactExponent : Int := min r.scale 0

def search : Nat → Decimal
  | 0 => ⟨r.floor r.exactExponent, r.exactExponent⟩
  | n + 1 =>
      match r.closest? (r.exactExponent + (n + 1 : Nat)) with
      | some d => ⟨d, r.exactExponent + (n + 1 : Nat)⟩
      | none => search n

/-- Every double is below ten to the 309th. -/
def shortest : Decimal := r.search (309 - r.exactExponent).toNat

theorem holds_of_closest? {r : Rounding} {e : Int} {d : Nat} (h : r.closest? e = some d) :
    r.holds e d = true := by
  simp only [closest?] at h
  split at h <;> (try split at h) <;> simp_all

theorem unit_pos (e : Int) : 0 < r.unit e :=
  Nat.mul_pos (Nat.pow_pos (by decide)) (Nat.pow_pos (by decide))

theorem step_dvd_unit : r.step r.exactExponent ∣ r.unit r.exactExponent := by
  simp only [step, unit, exactExponent, Nat.pow_eq]
  rcases Int.le_total r.scale 0 with h | h
  · have hs : min r.scale 0 = r.scale := by omega
    have hz : r.scale.toNat = 0 := by omega
    rw [hs, hz, Nat.pow_zero, Nat.mul_one, Nat.one_mul, show (10 : Nat) = 2 * 5 from rfl,
      Nat.mul_pow]
    exact Nat.dvd_mul_right _ _
  · have hs : min r.scale 0 = 0 := by omega
    have hz : (-r.scale).toNat = 0 := by omega
    rw [hs, hz]
    exact Nat.one_dvd _

theorem floor_mul_step :
    r.floor r.exactExponent * r.step r.exactExponent = r.value * r.unit r.exactExponent :=
  Nat.div_mul_cancel (Nat.dvd_trans r.step_dvd_unit (Nat.dvd_mul_left _ _))

theorem holds_floor {r : Rounding} (below : r.low < r.value) (above : r.value < r.high) :
    r.holds r.exactExponent (r.floor r.exactExponent) = true := by
  have l := Nat.mul_lt_mul_of_pos_right below (r.unit_pos r.exactExponent)
  have h := Nat.mul_lt_mul_of_pos_right above (r.unit_pos r.exactExponent)
  simp only [holds, floor_mul_step]
  split <;> simp <;> omega

theorem holds_search {r : Rounding} (below : r.low < r.value) (above : r.value < r.high) (n : Nat) :
    r.holds (r.search n).exponent (r.search n).digits = true := by
  induction n with
  | zero => exact holds_floor below above
  | succ n ih =>
    unfold search
    split
    · next h => exact holds_of_closest? h
    · exact ih

end Rounding

def Double.shortest (x : Double) : Decimal := (Rounding.ofDouble x).shortest

theorem Double.holds_shortest {x : Double} (h : 0 < x.significand) :
    (Rounding.ofDouble x).holds x.shortest.exponent x.shortest.digits = true := by
  apply Rounding.holds_search
  · simp only [Rounding.ofDouble]
    split <;> omega
  · simp only [Rounding.ofDouble]
    omega

end RelationalSelect
