import Mathlib.Data.List.TakeWhile
import RelationalSelect.Literal
import RelationalSelect.Proofs.Reading.Nearest

set_option autoImplicit false

namespace RelationalSelect

def readNatural (s : List Char) : Option Nat :=
  if s ≠ [] ∧ s.all Char.isDigit = true then some (Nat.ofDigitChars 10 s 0) else none

def readInteger (s : List Char) : Option Int :=
  if s.head? = some '-' then (readNatural s.tail).map fun n : Nat => -(n : Int)
  else (readNatural s).map fun n : Nat => (n : Int)

def splitMark (mark : Char) (s : List Char) : List Char × List Char :=
  (s.takeWhile (· != mark), (s.dropWhile (· != mark)).tail)

/-- Reads digits with or without a point and with or without an exponent. -/
def readDecimal (s : List Char) : Option Decimal := do
  let (mantissa, power) := splitMark 'e' s
  let (whole, fraction) := splitMark '.' mantissa
  let digits ← readNatural (whole ++ fraction)
  let exponent ← if power = [] then some 0 else readInteger power
  return ⟨digits, exponent - fraction.length⟩

def IsDigits (s : List Char) : Prop := ∀ c ∈ s, c.isDigit = true

theorem isDigits_toDigits (n : Nat) : IsDigits (Nat.toDigits 10 n) :=
  fun _ hc => Nat.isDigit_of_mem_toDigits (by decide) (by decide) hc

theorem isDigits_replicate (n : Nat) : IsDigits (List.replicate n '0') :=
  fun _ hc => List.eq_of_mem_replicate hc ▸ rfl

theorem isDigits_zero : IsDigits ['0'] := isDigits_replicate 1

theorem IsDigits.append {s t : List Char} (hs : IsDigits s) (ht : IsDigits t) : IsDigits (s ++ t) :=
  List.forall_mem_append.2 ⟨hs, ht⟩

theorem IsDigits.not_mem {s : List Char} (h : IsDigits s) {c : Char} (hc : c.isDigit = false) :
    c ∉ s := fun hmem => Bool.false_ne_true (hc.symm.trans (h c hmem))

theorem readNatural_of_digits {s : List Char} (hne : s ≠ []) (h : IsDigits s) :
    readNatural s = some (Nat.ofDigitChars 10 s 0) := if_pos ⟨hne, List.all_eq_true.2 h⟩

theorem readNatural_toDigits (n : Nat) : readNatural (Nat.toDigits 10 n) = some n := by
  rw [readNatural_of_digits Nat.toDigits_ne_nil (isDigits_toDigits n),
    Nat.ofDigitChars_ten_toDigits]

theorem readInteger_integerText (n : Int) : readInteger (integerText n) = some n := by
  unfold integerText
  split
  · simp only [readInteger, List.head?_cons, if_true, List.tail_cons, readNatural_toDigits,
      Option.map_some]
    congr 1
    omega
  · have hhead : (Nat.toDigits 10 n.natAbs).head? ≠ some '-' := fun h =>
      (isDigits_toDigits n.natAbs).not_mem (c := '-') rfl (List.mem_of_mem_head? h)
    simp only [readInteger, if_neg hhead, readNatural_toDigits, Option.map_some]
    congr 1
    omega

theorem splitMark_append {mark : Char} {s : List Char} (h : mark ∉ s) (t : List Char) :
    splitMark mark (s ++ mark :: t) = (s, t) := by
  have hp : ∀ c ∈ s, (c != mark) = true := by
    intro c hc
    simpa using fun heq : c = mark => h (heq ▸ hc)
  simp [splitMark, List.takeWhile_append_of_pos hp, List.dropWhile_append_of_pos hp]

theorem splitMark_of_not_mem {mark : Char} {s : List Char} (h : mark ∉ s) :
    splitMark mark s = (s, []) := by
  have hp : ∀ c ∈ s, (c != mark) = true := by
    intro c hc
    simpa using fun heq : c = mark => h (heq ▸ hc)
  simp [splitMark, List.takeWhile_eq_self_iff.2 hp, List.dropWhile_eq_nil_iff.2 hp]

theorem integerText_ne_nil (n : Int) : integerText n ≠ [] := by
  unfold integerText
  split <;> simp

theorem readDecimal_exponent {whole : List Char} (hw : IsDigits whole) (hne : whole ≠ [])
    (n : Int) :
    readDecimal (whole ++ 'e' :: integerText n) = some ⟨Nat.ofDigitChars 10 whole 0, n⟩ := by
  simp only [readDecimal, splitMark_append (hw.not_mem (c := 'e') rfl),
    splitMark_of_not_mem (hw.not_mem (c := '.') rfl), List.append_nil,
    readNatural_of_digits hne hw, if_neg (integerText_ne_nil n), readInteger_integerText]
  simp

section Layouts

variable {whole fraction : List Char} (hw : IsDigits whole) (hf : IsDigits fraction)
  (hne : whole ++ fraction ≠ [])

include hw hf hne

theorem readDecimal_point : readDecimal (whole ++ '.' :: fraction) =
    some ⟨Nat.ofDigitChars 10 (whole ++ fraction) 0, -fraction.length⟩ := by
  have hmark : 'e' ∉ whole ++ '.' :: fraction := by
    simp [hw.not_mem (c := 'e') rfl, hf.not_mem (c := 'e') rfl]
  simp [readDecimal, splitMark_of_not_mem hmark, splitMark_append (hw.not_mem (c := '.') rfl),
    readNatural_of_digits hne (hw.append hf)]

theorem readDecimal_point_exponent (n : Int) :
    readDecimal (whole ++ '.' :: fraction ++ 'e' :: integerText n) =
      some ⟨Nat.ofDigitChars 10 (whole ++ fraction) 0, n - fraction.length⟩ := by
  have hmark : 'e' ∉ whole ++ '.' :: fraction := by
    simp [hw.not_mem (c := 'e') rfl, hf.not_mem (c := 'e') rfl]
  simp only [readDecimal, splitMark_append hmark, splitMark_append (hw.not_mem (c := '.') rfl),
    readNatural_of_digits hne (hw.append hf), if_neg (integerText_ne_nil n),
    readInteger_integerText]
  rfl

end Layouts

section Digits

variable {digits : List Char} (h : IsDigits digits) (hne : digits ≠ []) (lead : Int)

include h hne

theorem readDecimal_positional : ∃ c, readDecimal (Layout.positional digits lead) = some c ∧
    c.value = Decimal.value ⟨Nat.ofDigitChars 10 digits 0, lead + 1 - digits.length⟩ := by
  unfold Layout.positional
  split
  · -- zeros before the digits change nothing
    have hzeros := isDigits_replicate (-lead - 1).toNat
    have hread := readDecimal_point isDigits_zero (hzeros.append h) (by simp)
    refine ⟨_, hread, ?_⟩
    have hdigits : Nat.ofDigitChars 10
        (['0'] ++ (List.replicate (-lead - 1).toNat '0' ++ digits)) 0 =
          Nat.ofDigitChars 10 digits 0 := by
      simp [Nat.ofDigitChars_append, Nat.ofDigitChars_cons, Nat.ofDigitChars_replicate_zero]
    rw [hdigits]
    congr 2
    simp only [List.length_append, List.length_replicate]
    omega
  · generalize hwhole : lead.toNat + 1 = whole
    simp only []
    split
    · next hlen =>
      -- zeros behind the digits go with the exponent
      have hzeros := isDigits_replicate (whole - digits.length)
      have hread := readDecimal_point (h.append hzeros) isDigits_zero (by simp)
      rw [List.take_of_length_le hlen]
      refine ⟨_, hread, ?_⟩
      have hdigits : Nat.ofDigitChars 10 (digits ++ List.replicate (whole - digits.length) '0' ++
          ['0']) 0 =
            10 * (10 ^ (whole - digits.length) * Nat.ofDigitChars 10 digits 0) := by
        simp [Nat.ofDigitChars_append, Nat.ofDigitChars_cons, Nat.ofDigitChars_replicate_zero]
      have hexponent : lead + 1 - digits.length = (whole - digits.length : Nat) := by omega
      rw [hdigits, hexponent]
      simp only [Decimal.value, List.length_singleton, zpow_neg, zpow_natCast, Nat.cast_mul,
        Nat.cast_pow, Nat.cast_ofNat, pow_one]
      ring
    · next hlen =>
      have hzeros : List.replicate (whole - digits.length) '0' = [] := by
        rw [Nat.sub_eq_zero_of_le (by omega)]
        rfl
      have htake : IsDigits (digits.take whole) := fun c hc => h c (List.mem_of_mem_take hc)
      have hdrop : IsDigits (digits.drop whole) := fun c hc => h c (List.mem_of_mem_drop hc)
      rw [hzeros, List.append_nil]
      have hread := readDecimal_point htake hdrop (by rw [List.take_append_drop]; exact hne)
      refine ⟨_, hread, ?_⟩
      rw [List.take_append_drop, List.length_drop]
      congr 2
      omega

theorem readDecimal_scientific : readDecimal (Layout.scientific 'e' digits lead) =
    some ⟨Nat.ofDigitChars 10 digits 0, lead + 1 - digits.length⟩ := by
  have hpos := List.length_pos_iff.2 hne
  unfold Layout.scientific
  split
  · next hlen =>
    have hone : digits.length = 1 := by omega
    rw [List.take_of_length_le hlen, List.append_nil, readDecimal_exponent h hne, hone]
    congr 2
    omega
  · have htake : IsDigits (digits.take 1) := fun c hc => h c (List.mem_of_mem_take hc)
    have hdrop : IsDigits (digits.drop 1) := fun c hc => h c (List.mem_of_mem_drop hc)
    rw [readDecimal_point_exponent htake hdrop (by rw [List.take_append_drop]; exact hne),
      List.take_append_drop, List.length_drop]
    congr 2
    omega

theorem readDecimal_digitsText :
    ∃ c, readDecimal (Literal.doubleLayout.digitsText digits lead) = some c ∧
      c.value = Decimal.value ⟨Nat.ofDigitChars 10 digits 0, lead + 1 - digits.length⟩ := by
  unfold Layout.digitsText
  split
  · exact readDecimal_positional h hne lead
  · exact ⟨_, readDecimal_scientific h hne lead, rfl⟩

end Digits

def Double.infinite : Nat := 2047 * 2 ^ 52

def Double.nan : Double := .ofBits (Double.infinite + 1)

/-- A double with its NaN exchanged for one and the same. -/
def Double.canonical (x : Double) : Double := if x.isNaN then .nan else x

def readMagnitude (s : List Char) : Option Nat :=
  match readDecimal s with
  | some c => some c.nearest
  | none => if s = "inf".toList then some Double.infinite else none

def readDouble (s : List Char) : Option Double :=
  match readMagnitude s with
  | some m => some (.ofBits m)
  | none =>
      if s = "NaN".toList then some .nan
      else if s.head? = some '-' then (readMagnitude s.tail).map fun m => .ofBits (2 ^ 63 + m)
      else none

theorem Double.exponentField_lt {x : Double} (nan : x.isNaN = false)
    (infinite : x.isInfinite = false) : x.exponentField < 2047 := by
  have hlt : x.exponentField < 2 ^ 11 := Nat.mod_lt _ (by decide)
  have hne : x.exponentField ≠ 2047 := by
    intro heq
    cases hf : x.fractionField == 0 with
    | true => simp [isInfinite, heq, hf] at infinite
    | false => simp [isNaN, heq, bne, hf] at nan
  omega

theorem Double.significand_pos {x : Double} (h : x.isZero = false) : 0 < x.significand := by
  unfold significand
  split
  · next he =>
    have hf : x.fractionField ≠ 0 := by simpa [isZero, he] using h
    omega
  · exact Nat.add_pos_left (by decide) _

theorem readMagnitude_magnitudeText {x : Double} (h : x.isNaN = false) :
    readMagnitude (Literal.doubleLayout.magnitudeText x) = some x.magnitude := by
  unfold Layout.magnitudeText
  cases hinfinite : x.isInfinite with
  | true =>
    have hnone : readDecimal "inf".toList = none := by rfl
    have hmagnitude : x.magnitude = Double.infinite := by
      simp only [Double.isInfinite, Bool.and_eq_true, beq_iff_eq, Double.exponentField_eq,
        Double.fractionField_eq] at hinfinite
      unfold Double.infinite
      omega
    simp only [if_true, hmagnitude]
    change readMagnitude "inf".toList = _
    simp only [readMagnitude, hnone, if_true]
  | false =>
    have finite := Double.exponentField_lt h hinfinite
    simp only [Bool.false_eq_true, if_false]
    cases hzero : x.isZero with
    | true =>
      obtain ⟨c, hread, hvalue⟩ := readDecimal_digitsText isDigits_zero (by simp) 0
      have hnearest := Decimal.nearest_eq finite (c := ⟨0, _⟩) (Double.holds_zero hzero _) hvalue
      simp only [if_true, readMagnitude, hread, hnearest]
    | false =>
      have hholds := Double.holds_shortest (Double.significand_pos hzero)
      obtain ⟨c, hread, hvalue⟩ := readDecimal_digitsText (isDigits_toDigits x.shortest.digits)
        Nat.toDigits_ne_nil
        (x.shortest.exponent + (Nat.toDigits 10 x.shortest.digits).length - 1)
      rw [Nat.ofDigitChars_ten_toDigits, Int.sub_add_cancel, Int.add_sub_cancel] at hvalue
      have hnearest := Decimal.nearest_eq finite hholds hvalue
      simp only [Bool.false_eq_true, if_false, readMagnitude, hread, hnearest]

theorem readMagnitude_dash (s : List Char) : readMagnitude ('-' :: s) = none := by
  have hnone : readDecimal ('-' :: s) = none := by
    simp [readDecimal, splitMark, readNatural]
  have hinf : '-' :: s ≠ "inf".toList := by simp
  simp only [readMagnitude, hnone, if_neg hinf]

theorem readDouble_text (x : Double) :
    readDouble (Literal.doubleLayout.text x) = some x.canonical := by
  unfold Layout.text Double.canonical
  cases hnan : x.isNaN with
  | true =>
    have hnone : readMagnitude "NaN".toList = none := by rfl
    change readDouble "NaN".toList = some Double.nan
    simp only [readDouble, hnone, if_true]
  | false =>
    have hread := readMagnitude_magnitudeText hnan
    simp only [Bool.false_eq_true, if_false]
    cases hneg : x.negative with
    | true =>
      have hbits : 2 ^ 63 + x.magnitude = x.bits.toNat := by
        simp only [Double.negative, beq_iff_eq, Nat.pow_eq] at hneg
        simp only [Double.magnitude, Nat.pow_eq]
        omega
      have hnan : '-' :: Literal.doubleLayout.magnitudeText x ≠ "NaN".toList := by simp
      simp only [if_true, readDouble, readMagnitude_dash, if_neg hnan, List.head?_cons,
        List.tail_cons, hread, Option.map_some, hbits, Double.ofBits_bits]
    | false =>
      have hbits : x.magnitude = x.bits.toNat := by
        have hlt := x.bits.toNat_lt
        simp only [Double.negative, beq_eq_false_iff_ne, Nat.pow_eq] at hneg
        simp only [Double.magnitude, Nat.pow_eq]
        omega
      simp only [Bool.false_eq_true, if_false, readDouble, hread, hbits, Double.ofBits_bits]

end RelationalSelect
