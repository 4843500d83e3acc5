import RelationalSelect.Proofs.Reading.Grammar

/-!
Reading conditions back from their tokens.

A condition is read from left to right with the operands that wait for the end of their right
operand on a stack. An operator that binds no tighter than one that waits ends its operand, so
operators associate to the left. What is read is what the grammar says, so a row of tokens is a
phrase for one condition at most, and the text of a condition gives back the condition: parentheses
stand where they are needed.
-/

set_option autoImplicit false

namespace RelationalSelect

def readOperator (t : Token) : Option Operator :=
  [.eq, .ne, .lt, .le, .gt, .ge, .and, .or].find? fun op => Token.keyword op.token == t

/-- What waits while an operand is read: an opened bracket, or a left operand with its operator. -/
inductive Pending where
  | bracket
  | operand (left : Condition) (op : Operator)

/-- Ends all operands on the stack whose operators bind at least as tightly as `p`. -/
def reduce (p : Nat) : Condition → List Pending → Condition × List Pending
  | e, .operand l op :: fs =>
      if p ≤ op.precedence then reduce p (.binary op l e) fs else (e, .operand l op :: fs)
  | e, fs => (e, fs)

def readFrom : Option Condition → List Pending → List Token → Option Condition
  | none, fs, .name t :: .word ['.'] :: .name n :: ts =>
      readFrom (some (.ref ⟨String.ofList t, String.ofList n⟩)) fs ts
  | none, fs, t :: ts =>
      match readLiteral t with
      | some v => readFrom (some (.literal v)) fs ts
      | none => if t = .word ['('] then readFrom none (.bracket :: fs) ts else none
  | some e, fs, [] =>
      match reduce 0 e fs with
      | (e, []) => some e
      | _ => none
  | some e, fs, t :: ts =>
      match readOperator t with
      | some op =>
          let waiting := reduce op.precedence e fs
          readFrom none (.operand waiting.1 op :: waiting.2) ts
      | none =>
          if t = .word [')'] then
            match reduce 0 e fs with
            | (e, .bracket :: fs) => readFrom (some e) fs ts
            | _ => none
          else none
  | _, _, _ => none

def readCondition (ts : List Token) : Option Condition := readFrom none [] ts

theorem readOperator_token (op : Operator) : readOperator (.keyword op.token) = some op := by
  cases op <;> rfl

theorem readFrom_ref (c : Column) (fs : List Pending) (ts : List Token) :
    readFrom none fs (c.tokens ++ ts) = readFrom (some (.ref c)) fs ts := by
  simp [Column.tokens, readFrom]

theorem readFrom_literal {t : Token} {v : Literal} (h : readLiteral t = some v)
    (fs : List Pending) (ts : List Token) :
    readFrom none fs (t :: ts) = readFrom (some (.literal v)) fs ts := by
  cases t with
  | name => contradiction
  | word | text => simp [readFrom, h]

theorem readFrom_open (fs : List Pending) (ts : List Token) :
    readFrom none fs (.word ['('] :: ts) = readFrom none (.bracket :: fs) ts := by
  have hnone : readLiteral (.word ['(']) = none := by rfl
  simp [readFrom, hnone]

theorem readFrom_close {e x : Condition} {fs gs : List Pending}
    (h : reduce 0 x gs = (e, .bracket :: fs)) (ts : List Token) :
    readFrom (some x) gs (.word [')'] :: ts) = readFrom (some e) fs ts := by
  have hnone : readOperator (.word [')']) = none := by rfl
  simp [readFrom, hnone, h]

theorem readFrom_operator {op : Operator} {l x : Condition} {fs gs : List Pending}
    (h : reduce op.precedence x gs = (l, fs)) (ts : List Token) :
    readFrom (some x) gs (.keyword op.token :: ts) = readFrom none (.operand l op :: fs) ts := by
  simp [readFrom, readOperator_token, h]

theorem readFrom_end {e x : Condition} {gs : List Pending} (h : reduce 0 x gs = (e, [])) :
    readFrom (some x) gs [] = some e := by
  simp [readFrom, h]

def binds : List Pending → Nat
  | .operand _ op :: _ => op.precedence
  | _ => 0

theorem reduce_of_binds {p : Nat} {fs : List Pending} (h : binds fs < p) (e : Condition) :
    reduce p e fs = (e, fs) := by
  cases fs with
  | nil => rfl
  | cons f fs =>
    cases f with
    | bracket => rfl
    | operand l op => exact if_neg (Nat.not_le.2 h)

theorem precedence_pos (e : Condition) : 0 < e.precedence := by
  cases e with
  | ref | literal => exact Nat.succ_pos 3
  | binary op => exact op.precedence_pos

/-- Reading the tokens comes to an operand that is as good as the condition for all that may follow:
an operator that would end the condition ends what still waits as well. -/
def Reads (ts : List Token) (e : Condition) (tight : Nat) : Prop :=
  ∀ fs us, binds fs < tight → ∃ x gs, readFrom none fs (ts ++ us) = readFrom (some x) gs us ∧
    ∀ p ≤ tight, reduce p x gs = reduce p e fs

theorem Reads.mono {ts : List Token} {e : Condition} {m n : Nat} (h : Reads ts e m) (hle : n ≤ m) :
    Reads ts e n := by
  intro fs us hfs
  obtain ⟨x, gs, hread, hreduce⟩ := h fs us (hfs.trans_le hle)
  exact ⟨x, gs, hread, fun p hp => hreduce p (hp.trans hle)⟩

theorem Reads.enclosed {ts : List Token} {e : Condition} {m : Nat} (h : Reads ts e m) (hm : 0 < m)
    (n : Nat) : Reads (.word ['('] :: ts ++ [.word [')']]) e n := by
  intro fs us _
  obtain ⟨x, gs, hread, hreduce⟩ := h (.bracket :: fs) (.word [')'] :: us) hm
  refine ⟨e, fs, ?_, fun _ _ => rfl⟩
  rw [List.append_assoc, List.cons_append, readFrom_open]
  exact hread.trans (readFrom_close (hreduce 0 (Nat.zero_le m)) us)

theorem Reads.bracketed {p : Prop} [Decidable p] {ts : List Token} {e : Condition} {m n : Nat}
    (h : Reads ts e m) (hm : 0 < m) (hn : ¬ p → n ≤ m) : Reads (bracketIf p ts) e n := by
  unfold bracketIf
  split
  · exact h.enclosed hm n
  · next hp => exact h.mono (hn hp)

theorem Reads.binary {op : Operator} {ls rs : List Token} {l r : Condition}
    (hl : Reads ls l op.precedence) (hr : Reads rs r (op.precedence + 1)) :
    Reads (ls ++ .keyword op.token :: rs) (.binary op l r) op.precedence := by
  intro fs us hfs
  -- the operator ends the left operand, and waits for the right one
  obtain ⟨x, gs, hread, hreduce⟩ := hl fs (.keyword op.token :: (rs ++ us)) hfs
  have hleft := (hreduce op.precedence (Nat.le_refl _)).trans (reduce_of_binds hfs l)
  obtain ⟨y, hs, hread₁, hreduce₁⟩ := hr (.operand l op :: fs) us (Nat.lt_succ_self _)
  refine ⟨y, hs, ?_, fun p hp => ?_⟩
  · rw [List.append_assoc]
    exact hread.trans ((readFrom_operator hleft _).trans hread₁)
  · exact (hreduce₁ p (Nat.le_succ_of_le hp)).trans (if_pos hp)

theorem Parses.reads {t : Tier} {ts : List Token} {e : Condition}
    (h : Parses .comparison t ts e) : Reads ts e t.level := by
  induction h with
  | column c => exact fun fs us _ => ⟨.ref c, fs, readFrom_ref c fs us, fun _ _ => rfl⟩
  | literal h => exact fun fs us _ => ⟨_, fs, readFrom_literal h fs us, fun _ _ => rfl⟩
  | enclosed _ ih => exact ih.enclosed Nat.one_pos _
  | or _ _ ihl ihr => exact @Reads.binary .or _ _ _ _ ihl ihr
  | and _ _ ihl ihr => exact @Reads.binary .and _ _ _ _ ihl ihr
  | @compare sign op hop _ _ _ _ _ _ ihl ihr =>
    obtain ⟨hcompares, rfl⟩ := mem_comparisonSigns.1 hop
    have hlevel := op.precedence_of_compares hcompares
    rw [← hlevel] at ihl ⊢
    exact .binary ihl (by rwa [hlevel])
  | loosen _ hle ih => exact ih.mono hle

theorem reads_tokens (e : Condition) : Reads e.tokens e.canonical e.precedence := by
  rw [e.precedence_eq_level]
  exact (parses_tokens (.inl (Nat.le_refl _))).reads

theorem Reads.readCondition {ts : List Token} {e : Condition} {n : Nat} (h : Reads ts e n)
    (hn : 0 < n) : readCondition ts = some e := by
  obtain ⟨x, gs, hread, hreduce⟩ := h [] [] hn
  rw [List.append_nil] at hread
  exact hread.trans (readFrom_end (hreduce 0 (Nat.zero_le n)))

theorem readCondition_tokens (e : Condition) : readCondition e.tokens = some e.canonical :=
  (reads_tokens e).readCondition (precedence_pos e)

theorem Parses.unique {ts : List Token} {e e₁ : Condition}
    (h : Parses .comparison .disjunction ts e) (h₁ : Parses .comparison .disjunction ts e₁) :
    e = e₁ := by
  have hread := h.reads.readCondition Nat.one_pos
  rw [h₁.reads.readCondition Nat.one_pos] at hread
  exact (Option.some.inj hread).symm

theorem parses_tokens_iff {c e : Condition} :
    Parses .comparison .disjunction c.tokens e ↔ e = c.canonical := by
  have hself : Parses .comparison .disjunction c.tokens c.canonical :=
    (parses_tokens (.inl (Nat.le_refl _))).loosen c.tier.disjunction_le_level
  exact ⟨fun h => h.unique hself, fun h => h ▸ hself⟩

theorem Lexes.keyword (op : Operator) : Lexes op.token.toList [.keyword op.token] := by
  cases op
  case and | or => exact .letters (by decide) (List.all_eq_true.1 rfl)
  all_goals exact .word (.inr ⟨rfl, List.all_eq_true.1 rfl⟩)

theorem Lexes.bracketed {p : Prop} [Decidable p] {s : List Char} {ts : List Token}
    (h : Lexes s ts) : Lexes (parenthesizedIf p s) (bracketIf p ts) := by
  have hclose : Lexes [')'] [.word [')']] := .mark rfl .nil
  unfold parenthesizedIf bracketIf
  split
  · exact .mark rfl (.append rfl h hclose)
  · exact h

theorem lexes_condition (e : Condition) : Lexes e.sql e.tokens := by
  induction e with
  | ref c => exact .qualified _ _
  | literal v => exact lexes_literal v
  | binary op l r ihl ihr =>
    have hl : Lexes _ (bracketIf (l.precedence < op.precedence) _) := ihl.bracketed
    have hr : Lexes _ (bracketIf (r.precedence ≤ op.precedence) _) := ihr.bracketed
    rw [Condition.tokens, List.append_cons]
    exact .append rfl (.append rfl hl (.blank rfl (.keyword op))) (.blank rfl hr)

/-- The text of a condition keeps its grouping: it is a phrase for this condition alone, and the
reader finds it. -/
theorem Condition.grouping_of_sql (c : Condition) : ∃ ts, lex c.sql = some ts ∧
    readCondition ts = some c.canonical ∧
      ∀ e, Parses .comparison .disjunction ts e ↔ e = c.canonical :=
  ⟨c.tokens, (lexes_condition c).lex_eq, readCondition_tokens c, fun _ => parses_tokens_iff⟩

end RelationalSelect
