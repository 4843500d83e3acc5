import RelationalSelect.Literal
import RelationalSelect.Operator

set_option autoImplicit false

namespace RelationalSelect

inductive Expr (α : Type) where
  | ref (source : α)
  | literal (value : Literal)
  | binary (op : Operator) (left right : Expr α)
  deriving DecidableEq

namespace Expr

variable {α β : Type}

def precedence : Expr α → Nat
  | .ref _ | .literal _ => 4
  | .binary op _ _ => op.precedence

def refs : Expr α → List α
  | .ref a => [a]
  | .literal _ => []
  | .binary _ l r => l.refs ++ r.refs

def mapM {m : Type → Type} [Monad m] (f : α → m β) : Expr α → m (Expr β)
  | .ref a => return .ref (← f a)
  | .literal v => return .literal v
  | .binary op l r => do
      let l ← l.mapM f
      let r ← r.mapM f
      return .binary op l r

def agrees [DecidableEq α] : Expr α → Expr α → Bool
  | .ref a, .ref b => a == b
  | .literal v, .literal w => v.agrees w
  | .binary op l r, .binary op₁ l₁ r₁ => op == op₁ && l.agrees l₁ && r.agrees r₁
  | _, _ => false

end Expr

def parenthesized (s : List Char) : List Char := '(' :: s ++ [')']

def parenthesizedIf (p : Prop) [Decidable p] (s : List Char) : List Char :=
  if p then parenthesized s else s

/-- Operators associate to the left, so a right operand needs parentheses already when it binds as
tightly as the operator. -/
def Expr.sql {α : Type} (ref : α → List Char) : Expr α → List Char
  | .ref a => ref a
  | .literal v => v.sql
  | .binary op l r =>
      parenthesizedIf (l.precedence < op.precedence) (l.sql ref) ++
        ' ' :: op.token.toList ++
        ' ' :: parenthesizedIf (r.precedence ≤ op.precedence) (r.sql ref)

end RelationalSelect
