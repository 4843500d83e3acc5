import RelationalSelect.Proofs.Reading.Conditions

set_option autoImplicit false

namespace RelationalSelect

namespace Condition

/-- The operands of the ANDs that stand one in the left operand of the other. -/
def spine : Condition → List Condition
  | .binary .and l r => spine l ++ [r]
  | c => [c]

def conjunctTokens (c : Condition) : List Token :=
  bracketIf (c.precedence < Operator.and.precedence) (Condition.tokens c)

def furtherTokens (c : Condition) : List Token := .keyword Operator.and.token :: conjunctTokens c

end Condition

open Condition (spine conjunctTokens furtherTokens)

def conjunctionTokens : List Condition → List Token
  | [] => [(Literal.boolean true).token]
  | c :: cs => conjunctTokens c ++ cs.flatMap furtherTokens

def readConjunction (ts : List Token) : Option (List Condition) := (readCondition ts).map spine

def normalConjuncts (cs : List Condition) : List Condition :=
  cs.flatMap fun c => spine c.canonical

/-- The conjuncts of an ON clause that a text tells. -/
def normalConditions : List Condition → List Condition
  | [] => [.literal (.boolean true)]
  | c :: cs => normalConjuncts (c :: cs)

theorem spine_foldl (e : Condition) (cs : List Condition) :
    spine (cs.foldl (.binary .and) e) = spine e ++ cs := by
  induction cs generalizing e with
  | nil => exact (List.append_nil _).symm
  | cons c cs ih =>
    have hstep := ih (.binary .and e c)
    rwa [spine, List.append_assoc] at hstep

theorem spine_canonical (c : Condition) :
    spine c.canonical = (spine c).map Condition.canonical := by
  fun_induction spine c with
  | case1 l r ih => rw [Condition.canonical, spine, ih, List.map_append, List.map_singleton]
  | case2 c h =>
    cases c with
    | ref | literal => rfl
    | binary op l r =>
      cases op with
      | and => exact absurd rfl (h l r)
      | _ => rfl

theorem precedence_ne_of_not_and {c : Condition} (h : ∀ l r, c = .binary .and l r → False) :
    c.precedence ≠ Operator.and.precedence := by
  cases c with
  | ref | literal => exact Nat.succ_ne_succ_iff.2 (by decide)
  | binary op l r =>
    cases op with
    | and => exact absurd rfl (h l r)
    | _ => exact Nat.succ_ne_succ_iff.2 (by decide)

theorem reads_conjunctTokens (c : Condition) :
    Reads (conjunctTokens c) c.canonical Operator.and.precedence :=
  (reads_tokens c).bracketed (precedence_pos c) Nat.le_of_not_lt

theorem Reads.further {ts : List Token} {e : Condition} (h : Reads ts e Operator.and.precedence)
    (c : Condition) : Reads (ts ++ furtherTokens c) ((spine c.canonical).foldl (.binary .and) e)
      Operator.and.precedence := by
  rw [spine_canonical]
  fun_induction spine c with
  | case1 l r ih =>
    have hr : Reads (bracketIf (r.precedence ≤ Operator.and.precedence) (Condition.tokens r))
        (Condition.canonical r) (Operator.and.precedence + 1) :=
      (reads_tokens r).bracketed (precedence_pos r) Nat.lt_of_not_le
    have hand := ih.binary hr
    rw [List.map_append, List.foldl_append]
    rwa [List.append_assoc] at hand
  | case2 c hc =>
    have hne := precedence_ne_of_not_and hc
    exact h.binary ((reads_tokens c).bracketed (precedence_pos c) fun hlt => by omega)

theorem Reads.conjuncts {ts : List Token} {e : Condition} (h : Reads ts e Operator.and.precedence)
    (cs : List Condition) : Reads (ts ++ cs.flatMap furtherTokens)
      ((normalConjuncts cs).foldl (.binary .and) e) Operator.and.precedence := by
  induction cs generalizing ts e with
  | nil => simpa [normalConjuncts] using h
  | cons c cs ih =>
    have hstep := ih (h.further c)
    rwa [List.append_assoc, ← List.foldl_append] at hstep

theorem readConjunction_tokens (cs : List Condition) :
    readConjunction (conjunctionTokens cs) = some (normalConditions cs) := by
  cases cs with
  | nil => rfl
  | cons c cs =>
    have h := ((reads_conjunctTokens c).conjuncts cs).readCondition Operator.and.precedence_pos
    rw [readConjunction, conjunctionTokens, h, Option.map_some, spine_foldl]
    rfl

theorem Condition.lexes_conjunctSql (c : Condition) : Lexes c.conjunctSql c.conjunctTokens :=
  (lexes_condition c).bracketed

theorem lexes_conjunctionSql (cs : List Condition) :
    Lexes (conjunctionSql cs) (conjunctionTokens cs) := by
  cases cs with
  | nil => exact lexes_literal (.boolean true)
  | cons c cs =>
    rw [conjunctionSql, List.map_cons, intercalate_cons_flatMap, List.flatMap_map]
    have hand (d : Condition) : Lexes (" AND ".toList ++ d.conjunctSql) d.furtherTokens :=
      .blank (c := ' ') rfl
        (.append (c := ' ') rfl (.keyword .and) (.blank rfl d.lexes_conjunctSql))
    exact .row (c := ' ') rfl hand c.lexes_conjunctSql cs

end RelationalSelect
