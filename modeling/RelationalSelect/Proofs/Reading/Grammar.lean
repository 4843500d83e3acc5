import RelationalSelect.Proofs.Reading.Literals

/-!
The grammar of conditions.

A disjunction is a row of conjunctions, a conjunction a row of comparisons, a comparison a row of
operands, and every row groups to the left. An operand is a column, a literal or a disjunction in
parentheses. Where comparisons do not associate, an operand stands to the left of a sign as well.
The tokens of a condition are a phrase of the first grammar for every condition, and of the second
one unless a comparison has a comparison as its left operand.
-/

set_option autoImplicit false

namespace RelationalSelect

def Token.keyword (s : String) : Token := .word s.toList

def Column.tokens (c : Column) : List Token :=
  [.name c.table.toList, .word ['.'], .name c.name.toList]

def bracketIf (p : Prop) [Decidable p] (ts : List Token) : List Token :=
  if p then .word ['('] :: ts ++ [.word [')']] else ts

def Condition.tokens : Condition → List Token
  | .ref c => c.tokens
  | .literal v => [v.token]
  | .binary op l r =>
      bracketIf (l.precedence < op.precedence) (Condition.tokens l) ++
        .keyword op.token :: bracketIf (r.precedence ≤ op.precedence) (Condition.tokens r)

def Condition.canonical : Condition → Condition
  | .ref c => .ref c
  | .literal v => .literal v.canonical
  | .binary op l r => .binary op (Condition.canonical l) (Condition.canonical r)

def Operator.compares : Operator → Bool
  | .and | .or => false
  | .eq | .ne | .lt | .le | .gt | .ge => true

def Condition.compares : Condition → Bool
  | .ref _ | .literal _ => false
  | .binary op _ _ => op.compares

/-- Whether some comparison has a comparison as its left operand. -/
def Condition.chains : Condition → Bool
  | .ref _ | .literal _ => false
  | .binary op l r =>
      op.compares && Condition.compares l || Condition.chains l || Condition.chains r

/-- The kinds of phrases, from the loosest to the tightest. -/
inductive Tier where
  | disjunction | conjunction | comparison | operand

namespace Tier

def level : Tier → Nat
  | .disjunction => 1
  | .conjunction => 2
  | .comparison => 3
  | .operand => 4

def tighter : Tier → Tier
  | .disjunction => .conjunction
  | .conjunction => .comparison
  | .comparison | .operand => .operand

theorem level_le_operand (t : Tier) : t.level ≤ Tier.operand.level := by cases t <;> decide

theorem disjunction_le_level (t : Tier) : Tier.disjunction.level ≤ t.level := by cases t <;> decide

theorem eq_operand_of_le {t : Tier} (h : Tier.operand.level ≤ t.level) : t = .operand := by
  cases t with
  | operand => rfl
  | _ => exact absurd h (by decide)

theorem level_tighter_le (t : Tier) : t.tighter.level ≤ t.level + 1 := by cases t <;> decide

end Tier

def comparisonSigns : List (String × Operator) :=
  [("=", .eq), ("<>", .ne), ("<", .lt), ("<=", .le), (">", .gt), (">=", .ge)]

/-- The phrases of each kind, and what they stand for. The grammars differ in what they let stand to
the left of a sign: another comparison where comparisons associate, an operand where they do not. -/
inductive Parses (left : Tier) : Tier → List Token → Condition → Prop
  | column (c : Column) : Parses left .operand c.tokens (.ref c)
  | literal {t : Token} {v : Literal} (h : readLiteral t = some v) :
      Parses left .operand [t] (.literal v)
  | enclosed {ts : List Token} {e : Condition} (h : Parses left .disjunction ts e) :
      Parses left .operand (.word ['('] :: ts ++ [.word [')']]) e
  | or {ls rs : List Token} {l r : Condition} (hl : Parses left .disjunction ls l)
      (hr : Parses left .conjunction rs r) :
      Parses left .disjunction (ls ++ .keyword "OR" :: rs) (.binary .or l r)
  | and {ls rs : List Token} {l r : Condition} (hl : Parses left .conjunction ls l)
      (hr : Parses left .comparison rs r) :
      Parses left .conjunction (ls ++ .keyword "AND" :: rs) (.binary .and l r)
  | compare {sign : String} {op : Operator} (hop : (sign, op) ∈ comparisonSigns)
      {ls rs : List Token} {l r : Condition} (hl : Parses left left ls l)
      (hr : Parses left .operand rs r) :
      Parses left .comparison (ls ++ .keyword sign :: rs) (.binary op l r)
  | loosen {t u : Tier} {ts : List Token} {e : Condition} (h : Parses left u ts e)
      (hle : t.level ≤ u.level) : Parses left t ts e

theorem mem_comparisonSigns {sign : String} {op : Operator} :
    (sign, op) ∈ comparisonSigns ↔ op.compares = true ∧ sign = op.token := by
  cases op <;> simp [comparisonSigns, Operator.compares, Operator.token]

def Operator.tier : Operator → Tier
  | .or => .disjunction
  | .and => .conjunction
  | .eq | .ne | .lt | .le | .gt | .ge => .comparison

def Condition.tier : Condition → Tier
  | .ref _ | .literal _ => .operand
  | .binary op _ _ => op.tier

theorem Operator.precedence_eq_level (op : Operator) : op.precedence = op.tier.level := by
  cases op <;> rfl

theorem Condition.precedence_eq_level (e : Condition) : e.precedence = e.tier.level := by
  cases e with
  | ref | literal => rfl
  | binary op => exact op.precedence_eq_level

theorem Operator.tier_of_compares {op : Operator} (h : op.compares = true) :
    op.tier = .comparison := by
  cases op with
  | and | or => contradiction
  | _ => rfl

theorem Operator.precedence_of_compares {op : Operator} (h : op.compares = true) :
    op.precedence = Tier.comparison.level := by
  rw [op.precedence_eq_level, op.tier_of_compares h]

theorem Condition.precedence_of_compares {e : Condition} (h : e.compares = true) :
    e.precedence = Tier.comparison.level := by
  cases e with
  | ref | literal => contradiction
  | binary op => exact op.precedence_of_compares h

theorem Condition.level_ne_comparison {e : Condition} (h : e.compares = false) :
    e.tier.level ≠ Tier.comparison.level := by
  cases e with
  | ref | literal => exact fun h => nomatch h
  | binary op =>
    cases op with
    | and | or => exact fun h => nomatch h
    | _ => contradiction

namespace Parses

variable {left : Tier} {ts ls rs : List Token} {e l r : Condition}

theorem bracketed {p : Prop} [Decidable p] {t u : Tier} (h : Parses left u ts e)
    (hp : ¬p → t.level ≤ u.level) : Parses left t (bracketIf p ts) e := by
  unfold bracketIf
  split
  · have hoperand : Parses left .operand _ e :=
      .enclosed (h.loosen u.disjunction_le_level)
    exact hoperand.loosen t.level_le_operand
  · next hnot => exact h.loosen (hp hnot)

theorem binary {op : Operator} (hl : Parses left (if op.compares then left else op.tier) ls l)
    (hr : Parses left op.tier.tighter rs r) :
    Parses left op.tier (ls ++ .keyword op.token :: rs) (.binary op l r) := by
  cases op with
  | or => exact .or hl hr
  | and => exact .and hl hr
  | _ => exact .compare (mem_comparisonSigns.2 ⟨rfl, rfl⟩) hl hr

theorem associative {t : Tier} (h : Parses .operand t ts e) : Parses .comparison t ts e := by
  induction h with
  | column c => exact .column c
  | literal h => exact .literal h
  | enclosed _ ih => exact .enclosed ih
  | or _ _ ihl ihr => exact .or ihl ihr
  | and _ _ ihl ihr => exact .and ihl ihr
  | compare hop _ _ ihl ihr => exact .compare hop (ihl.loosen (by decide)) ihr
  | loosen _ hle ih => exact ih.loosen hle

end Parses

/-- The tokens of a condition are a phrase for it, of the strict grammar as well if no comparison
has a comparison as its left operand. -/
theorem parses_tokens {left : Tier} {e : Condition}
    (h : left.level ≤ Tier.comparison.level ∨ e.chains = false) :
    Parses left e.tier e.tokens e.canonical := by
  induction e with
  | ref c => exact .column c
  | literal v => exact .literal (readLiteral_token v)
  | binary op l r ihl ihr =>
    simp only [Condition.chains, Bool.or_eq_false_iff, Bool.and_eq_false_imp] at h
    have hl := ihl (h.imp_right fun h => h.1.2)
    have hr := ihr (h.imp_right And.right)
    refine .binary (hl.bracketed fun hle => ?_) (hr.bracketed fun hlt => ?_)
    · rw [Condition.precedence_eq_level, op.precedence_eq_level, Nat.not_lt] at hle
      split
      · next hop =>
        -- a comparison without parentheses stands only where comparisons associate
        rw [op.tier_of_compares hop] at hle
        rcases h with hleft | hchains
        · exact hleft.trans hle
        · have hne := Condition.level_ne_comparison (hchains.1.1 hop)
          have hoperand := left.level_le_operand
          have hlevels : Tier.operand.level = Tier.comparison.level + 1 := rfl
          omega
      · exact hle
    · rw [Condition.precedence_eq_level, op.precedence_eq_level, Nat.not_le] at hlt
      exact op.tier.level_tighter_le.trans hlt

end RelationalSelect
