import Mathlib.Algebra.Order.Field.Rat
import Mathlib.Tactic.Positivity
import Mathlib.Tactic.Ring
import RelationalSelect.Number.Shortest

/-!
The double that a decimal reads back as.

In the order of their bits the finite doubles without a sign stand side by side: where the reals
that round to one of them end, those that round to the next begin, and the point between belongs to
exactly one of the two. So a decimal reads back as the greatest double whose lower end it reaches,
and a search over the bits finds it. The decimal that is printed for a double reads back as that
double.
-/

set_option autoImplicit false

namespace RelationalSelect

def Decimal.value (c : Decimal) : ℚ := c.digits * 10 ^ c.exponent

theorem zpow_mul_pow_toNat {b : ℚ} (hb : b ≠ 0) (n : ℤ) :
    b ^ n * b ^ (-n).toNat = b ^ n.toNat := by
  rw [← zpow_natCast, ← zpow_natCast, ← zpow_add₀ hb]
  congr 1
  omega

namespace Rounding

variable (r : Rounding)

def lower : ℚ := r.low * 2 ^ r.scale

def upper : ℚ := r.high * 2 ^ r.scale

def reached (e : Int) (d : Nat) : Bool :=
  if r.closed then decide (r.low * r.unit e ≤ d * r.step e)
  else decide (r.low * r.unit e < d * r.step e)

theorem exists_measure (e : Int) :
    ∃ w : ℚ, 0 < w ∧ (r.unit e : ℚ) = 2 ^ r.scale * w ∧ (r.step e : ℚ) = 10 ^ e * w := by
  refine ⟨2 ^ (-r.scale).toNat * 10 ^ (-e).toNat, by positivity, ?_, ?_⟩
  · simp only [unit, Nat.pow_eq, Nat.cast_mul, Nat.cast_pow, Nat.cast_ofNat]
    rw [← zpow_mul_pow_toNat two_ne_zero]
    ring
  · simp only [step, Nat.pow_eq, Nat.cast_mul, Nat.cast_pow, Nat.cast_ofNat]
    rw [← zpow_mul_pow_toNat (b := 10) (by norm_num) e]
    ring

theorem mul_unit_le_iff (n d : Nat) (e : Int) :
    n * r.unit e ≤ d * r.step e ↔ (n : ℚ) * 2 ^ r.scale ≤ d * 10 ^ e := by
  obtain ⟨w, hw, hunit, hstep⟩ := r.exists_measure e
  rw [← Nat.cast_le (α := ℚ), Nat.cast_mul, Nat.cast_mul, hunit, hstep, ← mul_assoc, ← mul_assoc,
    mul_le_mul_iff_left₀ hw]

theorem mul_step_le_iff (n d : Nat) (e : Int) :
    d * r.step e ≤ n * r.unit e ↔ (d : ℚ) * 10 ^ e ≤ n * 2 ^ r.scale := by
  obtain ⟨w, hw, hunit, hstep⟩ := r.exists_measure e
  rw [← Nat.cast_le (α := ℚ), Nat.cast_mul, Nat.cast_mul, hunit, hstep, ← mul_assoc, ← mul_assoc,
    mul_le_mul_iff_left₀ hw]

def Reaches (v : ℚ) : Prop := r.lower < v ∨ r.closed = true ∧ r.lower = v

theorem reached_iff (e : Int) (d : Nat) : r.reached e d = true ↔ r.Reaches (d * 10 ^ e) := by
  have hle := r.mul_unit_le_iff r.low d e
  have hlt := not_congr (r.mul_step_le_iff r.low d e)
  rw [not_le, not_le] at hlt
  unfold reached Reaches lower
  cases r.closed with
  | true => simp [hle, le_iff_lt_or_eq]
  | false => simp [hlt]

theorem holds_iff (e : Int) (d : Nat) : r.holds e d = true ↔ r.Reaches (d * 10 ^ e) ∧
    ((d * 10 ^ e : ℚ) < r.upper ∨ r.closed = true ∧ (d * 10 ^ e : ℚ) = r.upper) := by
  have hle := r.mul_step_le_iff r.high d e
  have hlt := not_congr (r.mul_unit_le_iff r.high d e)
  rw [not_le, not_le] at hlt
  have hsplit : r.holds e d = (r.reached e d &&
      if r.closed then decide (d * r.step e ≤ r.high * r.unit e)
      else decide (d * r.step e < r.high * r.unit e)) := by
    unfold holds reached
    split <;> rfl
  rw [hsplit, Bool.and_eq_true, reached_iff]
  unfold upper
  cases r.closed with
  | true => simp [hle, le_iff_lt_or_eq]
  | false => simp [hlt]

/-- The reals that round to the double with this exponent field and this fraction field. -/
def ofFields (e f : Nat) : Rounding :=
  let significand := if e = 0 then f else Nat.pow 2 52 + f
  { low := 4 * significand - if f == 0 && decide (1 < e) then 1 else 2
    value := 4 * significand
    high := 4 * significand + 2
    scale := (max e 1 : Nat) - 1075 - 2
    closed := significand % 2 == 0 }

def ofMagnitude (m : Nat) : Rounding := ofFields (m / 2 ^ 52) (m % 2 ^ 52)

theorem low_lt_high (e f : Nat) : (ofFields e f).low < (ofFields e f).high := by
  simp only [ofFields]
  split <;> omega

theorem lower_lt_upper (m : Nat) : (ofMagnitude m).lower < (ofMagnitude m).upper := by
  have hlow : ((ofMagnitude m).low : ℚ) < (ofMagnitude m).high := by
    exact_mod_cast low_lt_high _ _
  exact mul_lt_mul_of_pos_right hlow (zpow_pos two_pos _)

theorem lower_succ_fraction (e f : Nat) : (ofFields e (f + 1)).lower = (ofFields e f).upper := by
  have hlow : (ofFields e (f + 1)).low = (ofFields e f).high := by
    have hf : (f + 1 == 0) = false := rfl
    simp only [ofFields, hf, Bool.false_and, Bool.false_eq_true, if_false]
    split <;> omega
  unfold lower upper
  rw [hlow]
  rfl

/-- With the next exponent the units are twice as large, except where the numbers closest to zero
end. -/
theorem lower_succ_exponent (e : Nat) :
    (ofFields (e + 1) 0).lower = (ofFields e (2 ^ 52 - 1)).upper := by
  cases e with
  | zero => norm_num [lower, upper, ofFields]
  | succ e =>
    have hscale : (ofFields (e + 1 + 1) 0).scale = (ofFields (e + 1) (2 ^ 52 - 1)).scale + 1 := by
      simp only [ofFields]
      omega
    have hlow : (ofFields (e + 1) (2 ^ 52 - 1)).high = 2 * (ofFields (e + 1 + 1) 0).low := by
      simp [ofFields]
    unfold lower upper
    rw [hscale, hlow, zpow_add_one₀ two_ne_zero, Nat.cast_mul, Nat.cast_ofNat]
    ring

/-- Where one double ends the next one begins. -/
theorem lower_succ (m : Nat) : (ofMagnitude (m + 1)).lower = (ofMagnitude m).upper := by
  unfold ofMagnitude
  by_cases hf : m % 2 ^ 52 + 1 < 2 ^ 52
  · have hexponent : (m + 1) / 2 ^ 52 = m / 2 ^ 52 := by omega
    have hfraction : (m + 1) % 2 ^ 52 = m % 2 ^ 52 + 1 := by omega
    rw [hexponent, hfraction]
    exact lower_succ_fraction _ _
  · have hexponent : (m + 1) / 2 ^ 52 = m / 2 ^ 52 + 1 := by omega
    have hfraction : (m + 1) % 2 ^ 52 = 0 := by omega
    have hlast : m % 2 ^ 52 = 2 ^ 52 - 1 := by omega
    rw [hexponent, hfraction, hlast]
    exact lower_succ_exponent _

theorem closed_succ (m : Nat) : (ofMagnitude (m + 1)).closed = !(ofMagnitude m).closed := by
  have hclosed : ∀ n, (ofMagnitude n).closed = (n % 2 == 0) := by
    intro n
    simp only [ofMagnitude, ofFields, Nat.pow_eq]
    split <;> congr 1 <;> omega
  rw [hclosed, hclosed]
  cases h : m % 2 == 0 <;> simp at h ⊢ <;> omega

theorem holds_ofMagnitude_iff (m : Nat) (e : Int) (d : Nat) :
    (ofMagnitude m).holds e d = true ↔
      (ofMagnitude m).Reaches (d * 10 ^ e) ∧ ¬ (ofMagnitude (m + 1)).Reaches (d * 10 ^ e) := by
  rw [holds_iff]
  refine and_congr_right fun _ => ?_
  unfold Reaches
  rw [lower_succ, closed_succ]
  cases (ofMagnitude m).closed with
  | true => simp [le_iff_lt_or_eq]
  | false => simp [← le_iff_lt_or_eq]

theorem reaches_of_succ {m : Nat} {v : ℚ} (h : (ofMagnitude (m + 1)).Reaches v) :
    (ofMagnitude m).Reaches v := by
  have hlt := lower_lt_upper m
  rw [← lower_succ] at hlt
  rcases h with h | ⟨-, h⟩
  · exact .inl (hlt.trans h)
  · exact .inl (h ▸ hlt)

theorem reaches_of_le {k m : Nat} (hkm : k ≤ m) {v : ℚ} (h : (ofMagnitude m).Reaches v) :
    (ofMagnitude k).Reaches v := by
  induction hkm with
  | refl => exact h
  | step _ ih => exact ih (reaches_of_succ h)

end Rounding

namespace Double

def ofBits (n : Nat) : Double := ⟨.ofNat n⟩

def magnitude (x : Double) : Nat := x.bits.toNat % Nat.pow 2 63

theorem ofBits_bits (x : Double) : ofBits x.bits.toNat = x := by
  simp [ofBits]

theorem exponentField_eq (x : Double) : x.exponentField = x.magnitude / 2 ^ 52 := by
  simp only [exponentField, magnitude, Nat.pow_eq]
  omega

theorem fractionField_eq (x : Double) : x.fractionField = x.magnitude % 2 ^ 52 := by
  simp only [fractionField, magnitude, Nat.pow_eq]
  omega

theorem rounding_eq (x : Double) : Rounding.ofDouble x = Rounding.ofMagnitude x.magnitude := by
  unfold Rounding.ofMagnitude
  rw [← exponentField_eq, ← fractionField_eq]
  rfl

theorem magnitude_lt {x : Double} (finite : x.exponentField < 2047) :
    x.magnitude < 2047 * 2 ^ 52 := by
  rw [exponentField_eq] at finite
  omega

theorem holds_zero {x : Double} (h : x.isZero = true) (e : Int) :
    (Rounding.ofDouble x).holds e 0 = true := by
  simp only [isZero, Bool.and_eq_true, beq_iff_eq] at h
  simp [Rounding.holds, Rounding.ofDouble, significand, h.1, h.2]

end Double

/-- The greatest number below `m + 2 ^ n` with a property that `m` and all below it have. -/
def greatest (p : Nat → Bool) : Nat → Nat → Nat
  | 0, m => m
  | n + 1, m => if p (m + 2 ^ n) then greatest p n (m + 2 ^ n) else greatest p n m

theorem greatest_eq {p : Nat → Bool} {t : Nat} (below : ∀ k ≤ t, p k = true)
    (above : ∀ k, t < k → p k = false) {n m : Nat} (hm : m ≤ t) (ht : t < m + 2 ^ n) :
    greatest p n m = t := by
  induction n generalizing m with
  | zero =>
    rw [pow_zero] at ht
    unfold greatest
    omega
  | succ n ih =>
    rw [pow_succ] at ht
    unfold greatest
    cases Nat.lt_or_ge t (m + 2 ^ n) with
    | inl hlt =>
      rw [above _ hlt, if_neg Bool.false_ne_true]
      exact ih hm hlt
    | inr hge =>
      rw [below _ hge, if_pos rfl]
      exact ih hge (by omega)

namespace Decimal

/-- The bits of the double, its sign aside, as which a decimal reads back. -/
def nearest (c : Decimal) : Nat :=
  greatest (fun m => (Rounding.ofMagnitude m).reached c.exponent c.digits) 63 0

theorem nearest_eq {x : Double} (finite : x.exponentField < 2047) {c c₁ : Decimal}
    (h : (Rounding.ofDouble x).holds c.exponent c.digits = true) (hc : c₁.value = c.value) :
    c₁.nearest = x.magnitude := by
  have hlt := Double.magnitude_lt finite
  rw [Double.rounding_eq, Rounding.holds_ofMagnitude_iff] at h
  change _ ∧ ¬ (Rounding.ofMagnitude _).Reaches c.value at h
  refine greatest_eq (fun k hk => ?_) (fun k hk => ?_) (Nat.zero_le _) (by omega)
  · rw [Rounding.reached_iff]
    change (Rounding.ofMagnitude k).Reaches c₁.value
    rw [hc]
    exact Rounding.reaches_of_le hk h.1
  · rw [Bool.eq_false_iff, ne_eq, Rounding.reached_iff]
    change ¬ (Rounding.ofMagnitude k).Reaches c₁.value
    rw [hc]
    exact fun hr => h.2 (Rounding.reaches_of_le hk hr)

end Decimal

end RelationalSelect
