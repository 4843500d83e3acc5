set_option autoImplicit false

namespace RelationalSelect

inductive Operator where
  | eq | ne | lt | le | gt | ge | and | or
  deriving DecidableEq

namespace Operator

def token : Operator → String
  | .eq => "="
  | .ne => "<>"
  | .lt => "<"
  | .le => "<="
  | .gt => ">"
  | .ge => ">="
  | .and => "AND"
  | .or => "OR"

def precedence : Operator → Nat
  | .or => 1
  | .and => 2
  | .eq | .ne | .lt | .le | .gt | .ge => 3

theorem precedence_pos (op : Operator) : 0 < op.precedence := by cases op <;> decide

theorem precedence_le_three (op : Operator) : op.precedence ≤ 3 := by cases op <;> decide

theorem token_inj {a b : Operator} : a.token = b.token ↔ a = b := by
  cases a <;> cases b <;> decide

end Operator

end RelationalSelect
