import RelationalSelect.Number.Layout
import RelationalSelect.Text.Quoted

set_option autoImplicit false

namespace RelationalSelect

inductive Literal where
  | null
  | boolean (value : Bool)
  | integer (value : Int)
  | double (value : Double)
  | text (value : String)
  deriving DecidableEq

namespace Literal

/-- Doubles from a ten-thousandth up to ten to the sixteenth are written positionally, with at
least one digit after the point, and all others with an exponent. -/
def doubleLayout : Layout := ⟨-4, 15, 'e', "NaN", "inf"⟩

def sql : Literal → List Char
  | .null => "NULL".toList
  | .boolean true => "TRUE".toList
  | .boolean false => "FALSE".toList
  | .integer value => integerText value
  | .double value => doubleLayout.text value
  | .text value => quoted '\x27' value.toList

def agrees : Literal → Literal → Bool
  | .double a, .double b => a.numEq b
  | a, b => a == b

end Literal

end RelationalSelect
