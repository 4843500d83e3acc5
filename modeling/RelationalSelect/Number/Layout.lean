import RelationalSelect.Number.Shortest

set_option autoImplicit false

namespace RelationalSelect

def integerText (n : Int) : List Char :=
  if n < 0 then '-' :: Nat.toDigits 10 n.natAbs else Nat.toDigits 10 n.natAbs

/-- The decisions of a format for floating-point numbers. A number whose leading digit has an
exponent from `least` to `greatest` is written positionally. -/
structure Layout where
  least : Int
  greatest : Int
  mark : Char
  notANumber : String
  infinity : String

namespace Layout

def positional (digits : List Char) (lead : Int) : List Char :=
  if lead < 0 then
    '0' :: '.' :: List.replicate (-lead - 1).toNat '0' ++ digits
  else
    let whole := lead.toNat + 1
    digits.take whole ++ List.replicate (whole - digits.length) '0' ++
      '.' :: if digits.length ≤ whole then ['0'] else digits.drop whole

def scientific (mark : Char) (digits : List Char) (lead : Int) : List Char :=
  digits.take 1 ++ (if digits.length ≤ 1 then [] else '.' :: digits.drop 1) ++
    mark :: integerText lead

def digitsText (l : Layout) (digits : List Char) (lead : Int) : List Char :=
  if l.least ≤ lead ∧ lead ≤ l.greatest then positional digits lead
  else scientific l.mark digits lead

def magnitudeText (l : Layout) (x : Double) : List Char :=
  if x.isInfinite then l.infinity.toList
  else if x.isZero then l.digitsText ['0'] 0
  else
    let digits := Nat.toDigits 10 x.shortest.digits
    l.digitsText digits (x.shortest.exponent + digits.length - 1)

def text (l : Layout) (x : Double) : List Char :=
  if x.isNaN then l.notANumber.toList
  else if x.negative then '-' :: l.magnitudeText x
  else l.magnitudeText x

end Layout

end RelationalSelect
