import RelationalSelect.Proofs.Reading.Conditions

/-!
Comparisons of comparisons.

A comparison that is the right operand of another one stands in parentheses. One that is the left
operand does not, and so the text has two signs with one operand between them. A text without such
chains is a phrase of the grammar in which comparisons do not associate; a text with one is not,
since in a phrase of that grammar an AND, an OR or a bracket comes between two signs.
-/

set_option autoImplicit false

namespace RelationalSelect

def opening (p : Prop) [Decidable p] : List Char := if p then ['('] else []

def closing (p : Prop) [Decidable p] : List Char := if p then [')'] else []

theorem parenthesizedIf_eq (p : Prop) [Decidable p] (s : List Char) :
    parenthesizedIf p s = opening p ++ s ++ closing p := by
  unfold parenthesizedIf opening closing
  split
  · rfl
  · simp

inductive Side where
  | left | right

namespace Side

def pick (l r : Condition) : Side → Condition
  | .left => l
  | .right => r

def before (op : Operator) (l r : Condition) : Side → List Char
  | .left => opening (l.precedence < op.precedence)
  | .right => parenthesizedIf (l.precedence < op.precedence) l.sql ++
      ' ' :: op.token.toList ++ ' ' :: opening (r.precedence ≤ op.precedence)

def after (op : Operator) (l r : Condition) : Side → List Char
  | .left => closing (l.precedence < op.precedence) ++ ' ' :: op.token.toList ++
      ' ' :: parenthesizedIf (r.precedence ≤ op.precedence) r.sql
  | .right => closing (r.precedence ≤ op.precedence)

theorem sql_binary (side : Side) (op : Operator) (l r : Condition) :
    Condition.sql (.binary op l r) =
      side.before op l r ++ (side.pick l r).sql ++ side.after op l r := by
  have hsql : Condition.sql (.binary op l r) =
      parenthesizedIf (l.precedence < op.precedence) l.sql ++ ' ' :: op.token.toList ++
        ' ' :: parenthesizedIf (r.precedence ≤ op.precedence) r.sql := rfl
  cases side with
  | left =>
    rw [hsql, parenthesizedIf_eq (l.precedence < op.precedence)]
    simp [before, after, pick]
  | right =>
    rw [hsql, parenthesizedIf_eq (r.precedence ≤ op.precedence)]
    simp [before, after, pick]

end Side

/-- An operand of some operator of a condition, with the text before it and after it. -/
inductive Condition.Operand :
    Condition → Operator → Side → List Char → Condition → List Char → Prop
  | here (op : Operator) (side : Side) (l r : Condition) :
      Operand (.binary op l r) op side (side.before op l r) (side.pick l r) (side.after op l r)
  | beneath {op op₁ : Operator} {side side₁ : Side} {l r e : Condition} {before after : List Char}
      (h : Operand (side.pick l r) op₁ side₁ before e after) :
      Operand (.binary op l r) op₁ side₁ (side.before op l r ++ before) e
        (after ++ side.after op l r)

def Enclosed (before after : List Char) : Prop := ['('] <:+ before ∧ [')'] <+: after

namespace Condition.Operand

variable {c e : Condition} {op : Operator} {side : Side} {before after : List Char}

theorem sql_eq (h : Operand c op side before e after) : c.sql = before ++ e.sql ++ after := by
  induction h with
  | here op side l r => exact side.sql_binary op l r
  | @beneath op _ side _ l r _ _ _ _ ih =>
    rw [side.sql_binary op l r, ih]
    simp

theorem enclosed (h : Operand c op side before e after) (hside : side = .right)
    (hop : op.compares = true) (he : e.compares = true) : Enclosed before after := by
  induction h with
  | here op side l r =>
    subst hside
    have hle : r.precedence ≤ op.precedence :=
      ((Condition.precedence_of_compares he).trans (op.precedence_of_compares hop).symm).le
    have hopening : opening (r.precedence ≤ op.precedence) = ['('] := if_pos hle
    have hclosing : closing (r.precedence ≤ op.precedence) = [')'] := if_pos hle
    simp only [Side.before, Side.after, hopening, hclosing]
    exact ⟨(List.suffix_cons ' ' ['(']).trans (List.suffix_append _ _), List.prefix_rfl⟩
  | beneath _ ih =>
    obtain ⟨hopen, hclose⟩ := ih hside hop he
    exact ⟨hopen.trans (List.suffix_append _ _), hclose.trans (List.prefix_append _ _)⟩

theorem bare (h : Operand c op side before e after) (hside : side = .left)
    (hop : op.compares = true) (he : e.compares = true) : [' '] <+: after := by
  induction h with
  | here op side l r =>
    subst hside
    have hnot : ¬l.precedence < op.precedence :=
      ((Condition.precedence_of_compares he).trans (op.precedence_of_compares hop).symm).not_lt
    have hclosing : closing (l.precedence < op.precedence) = [] := if_neg hnot
    rw [Side.after, hclosing]
    exact List.prefix_append [' '] _
  | beneath _ ih => exact (ih hside hop he).trans (List.prefix_append _ _)

theorem enclosed_iff (h : Operand c op side before e after) (hop : op.compares = true)
    (he : e.compares = true) : Enclosed before after ↔ side = .right := by
  cases side with
  | left =>
    refine iff_of_false (fun henclosed => ?_) nofun
    obtain ⟨s, hs⟩ := h.bare rfl hop he
    obtain ⟨t, ht⟩ := henclosed.2
    have heq := hs.trans ht.symm
    cases heq
  | right => exact iff_of_true (h.enclosed rfl hop he) rfl

end Condition.Operand

/-- Two signs with nothing but one operand between them. -/
inductive BareChain : List Token → Prop
  | intro {first second : Operator} {ts : List Token} {e : Condition}
      (hfirst : first.compares = true) (hsecond : second.compares = true)
      (h : Parses .comparison .operand ts e) (before after : List Token) :
      BareChain (before ++ .keyword first.token :: ts ++ .keyword second.token :: after)

theorem BareChain.append {ts : List Token} (h : BareChain ts) (us vs : List Token) :
    BareChain (us ++ ts ++ vs) := by
  obtain ⟨hfirst, hsecond, hparses, before, after⟩ := h
  have hchain := BareChain.intro hfirst hsecond hparses (us ++ before) (after ++ vs)
  simpa using hchain

theorem BareChain.bracketed {p : Prop} [Decidable p] {ts : List Token} (h : BareChain ts) :
    BareChain (bracketIf p ts) := by
  unfold bracketIf
  split
  · exact h.append [.word ['(']] [.word [')']]
  · exact h

theorem bareChain_of_chains {c : Condition} (h : c.chains = true) : BareChain c.tokens := by
  induction c with
  | ref | literal => contradiction
  | binary op l r ihl ihr =>
    simp only [Condition.chains, Bool.or_eq_true, Bool.and_eq_true] at h
    rcases h with (⟨hop, hl⟩ | hl) | hr
    · cases l with
      | ref | literal => contradiction
      | binary op₁ l₁ r₁ =>
        have hop₁ : op₁.compares = true := hl
        have hprecedence : op₁.precedence = op.precedence :=
          (op₁.precedence_of_compares hop₁).trans (op.precedence_of_compares hop).symm
        have hnot : ¬Expr.precedence (.binary op₁ l₁ r₁ : Condition) < op.precedence :=
          hprecedence.not_lt
        have hbetween : Parses .comparison .operand
            (bracketIf (r₁.precedence ≤ op₁.precedence) (Condition.tokens r₁))
            (Condition.canonical r₁) := by
          refine (parses_tokens (.inl (Nat.le_refl _))).bracketed fun hlt => ?_
          rw [op₁.precedence_of_compares hop₁, Condition.precedence_eq_level] at hlt
          exact Nat.lt_of_not_le hlt
        rw [Condition.tokens, bracketIf, if_neg hnot]
        exact .intro hop₁ hop hbetween _ _
    · have hleft := (ihl hl).bracketed (p := l.precedence < op.precedence)
      exact hleft.append [] _
    · have hright := (ihr hr).bracketed (p := r.precedence ≤ op.precedence)
      have hchain := hright.append
        (bracketIf (l.precedence < op.precedence) (Condition.tokens l) ++ [.keyword op.token]) []
      rwa [List.append_nil, List.append_assoc] at hchain

/-- Notes for every open bracket whether the last operator in it was a sign, and ends where another
sign comes. -/
def watchToken (t : Token) : List Bool → Option (List Bool)
  | [] => none
  | seen :: outer =>
      match readOperator t with
      | some op => if op.compares && seen then none else some (op.compares :: outer)
      | none =>
          if t = .word ['('] then some (false :: seen :: outer)
          else if t = .word [')'] then some outer
          else some (seen :: outer)

def watch (ts : List Token) (seen : List Bool) : Option (List Bool) :=
  ts.foldlM (fun seen t => watchToken t seen) seen

theorem watch_append (ts us : List Token) (seen : List Bool) :
    watch (ts ++ us) seen = (watch ts seen).bind (watch us) := List.foldlM_append

theorem watch_cons (t : Token) (ts : List Token) (seen : List Bool) :
    watch (t :: ts) seen = (watchToken t seen).bind (watch ts) := rfl

section

variable {left t : Tier} {ts ls rs : List Token} {e : Condition} {op : Operator} {seen : Bool}
  {outer last : List Bool}

theorem watchToken_operator : watchToken (.keyword op.token) (seen :: outer) =
    if op.compares && seen then none else some (op.compares :: outer) := by
  rw [watchToken, readOperator_token]

theorem watch_literal {t : Token} {v : Literal} (h : readLiteral t = some v) :
    watch [t] (seen :: outer) = some (seen :: outer) := by
  have hne (u : Token) (hnone : readLiteral u = none) : t ≠ u := by
    rintro rfl
    rw [h] at hnone
    contradiction
  have hoperator : readOperator t = none := by
    refine Option.eq_none_iff_forall_ne_some.2 fun op hop => ?_
    have heq : Token.keyword op.token = t := by simpa using List.find?_some hop
    exact hne _ (by cases op <;> rfl) heq.symm
  simp [watch, watchToken, hoperator, hne (.word ['(']) rfl, hne (.word [')']) rfl]

theorem watch_column (c : Column) : watch c.tokens (seen :: outer) = some (seen :: outer) := rfl

theorem watch_enclosed : watch (.word ['('] :: ts ++ [.word [')']]) (seen :: outer) =
    (watch ts (false :: seen :: outer)).bind (watchToken (.word [')'])) := by
  have hopen : watchToken (.word ['(']) (seen :: outer) = some (false :: seen :: outer) := rfl
  rw [List.cons_append, watch_cons, hopen, Option.bind_some, watch_append]
  congr 1
  funext seen
  exact Option.bind_fun_some _

theorem watch_binary : watch (ls ++ .keyword op.token :: rs) (seen :: outer) =
    (watch ls (seen :: outer)).bind fun seen₁ =>
      (watchToken (.keyword op.token) seen₁).bind (watch rs) := watch_append ..

/-- Tokens that close the brackets they open. -/
def Closes (ts : List Token) : Prop :=
  ∀ seen outer last, watch ts (seen :: outer) = some last → ∃ seen₁, last = seen₁ :: outer

theorem Closes.eq_of_enclosed (h : Closes ts)
    (hwatch : watch (.word ['('] :: ts ++ [.word [')']]) (seen :: outer) = some last) :
    last = seen :: outer := by
  rw [watch_enclosed, Option.bind_eq_some_iff] at hwatch
  obtain ⟨inside, hts, hclose⟩ := hwatch
  obtain ⟨seen₁, rfl⟩ := h _ _ _ hts
  exact (Option.some.inj hclose).symm

theorem Closes.binary (hl : Closes ls) (hr : Closes rs) :
    Closes (ls ++ .keyword op.token :: rs) := by
  intro seen outer last hwatch
  simp only [watch_binary, Option.bind_eq_some_iff] at hwatch
  obtain ⟨seen₁, hls, seen₂, hop, hrs⟩ := hwatch
  obtain ⟨seen₁, rfl⟩ := hl _ _ _ hls
  rw [watchToken_operator] at hop
  split at hop
  · contradiction
  · cases hop
    exact hr _ _ _ hrs

theorem Parses.closes (h : Parses left t ts e) : Closes ts := by
  induction h with
  | column c => exact fun seen outer last hwatch => ⟨seen, (Option.some.inj hwatch).symm⟩
  | literal h =>
    intro seen outer last hwatch
    rw [watch_literal h] at hwatch
    exact ⟨seen, (Option.some.inj hwatch).symm⟩
  | enclosed _ ih => exact fun seen outer last hwatch => ⟨seen, ih.eq_of_enclosed hwatch⟩
  | or _ _ ihl ihr => exact @Closes.binary _ _ .or ihl ihr
  | and _ _ ihl ihr => exact @Closes.binary _ _ .and ihl ihr
  | compare hop _ _ ihl ihr =>
    obtain ⟨-, rfl⟩ := mem_comparisonSigns.1 hop
    exact ihl.binary ihr
  | loosen _ _ ih => exact ih

theorem Parses.watch_operand (h : Parses left t ts e) (ht : t = .operand)
    (hwatch : watch ts (seen :: outer) = some last) : last = seen :: outer := by
  induction h generalizing seen outer last with
  | column c => exact (Option.some.inj hwatch).symm
  | literal h =>
    rw [watch_literal h] at hwatch
    exact (Option.some.inj hwatch).symm
  | enclosed h => exact h.closes.eq_of_enclosed hwatch
  | or | and | compare => contradiction
  | loosen _ hle ih =>
    subst ht
    exact ih (Tier.eq_operand_of_le hle) hwatch

theorem watch_binary_of_eq {seen₁ : Bool} (hls : watch ls (seen :: outer) = some (seen₁ :: outer))
    (hop : (op.compares && seen₁) = false) : watch (ls ++ .keyword op.token :: rs) (seen :: outer) =
      watch rs (op.compares :: outer) := by
  rw [watch_binary, hls, Option.bind_some, watchToken_operator, hop]
  rfl

theorem exists_watch_connective (hop : op.compares = false) (hl : Closes ls)
    (hls : ∃ last, watch ls (false :: outer) = some last)
    (hrs : ∃ last, watch rs (false :: outer) = some last) :
    ∃ last, watch (ls ++ .keyword op.token :: rs) (false :: outer) = some last := by
  obtain ⟨inside, hls⟩ := hls
  obtain ⟨seen₁, rfl⟩ := hl _ _ _ hls
  rw [watch_binary_of_eq hls (by rw [hop, Bool.false_and]), hop]
  exact hrs

theorem Parses.exists_watch (h : Parses .operand t ts e) (hseen : t = .operand ∨ seen = false) :
    ∃ last, watch ts (seen :: outer) = some last := by
  induction h generalizing seen outer with
  | column c => exact ⟨_, watch_column c⟩
  | literal h => exact ⟨_, watch_literal h⟩
  | enclosed h ih =>
    have hinside : ∃ last, watch _ (false :: seen :: outer) = some last := ih (.inr rfl)
    obtain ⟨inside, hts⟩ := hinside
    obtain ⟨seen₁, rfl⟩ := h.closes _ _ _ hts
    refine ⟨seen :: outer, ?_⟩
    rw [watch_enclosed, hts]
    rfl
  | or hl _ ihl ihr =>
    obtain rfl : seen = false := hseen.resolve_left nofun
    exact exists_watch_connective (rfl : Operator.or.compares = false) hl.closes
      (ihl (.inr rfl)) (ihr (.inr rfl))
  | and hl _ ihl ihr =>
    obtain rfl : seen = false := hseen.resolve_left nofun
    exact exists_watch_connective (rfl : Operator.and.compares = false) hl.closes
      (ihl (.inr rfl)) (ihr (.inr rfl))
  | compare hop hl _ ihl ihr =>
    obtain rfl : seen = false := hseen.resolve_left nofun
    obtain ⟨-, rfl⟩ := mem_comparisonSigns.1 hop
    obtain ⟨inside, hls⟩ := ihl (.inl rfl)
    obtain rfl := hl.watch_operand rfl hls
    rw [watch_binary_of_eq hls (Bool.and_false _)]
    exact ihr (.inl rfl)
  | loosen _ hle ih =>
    refine ih (hseen.imp_left fun ht => ?_)
    rw [ht] at hle
    exact Tier.eq_operand_of_le hle

theorem Parses.not_bareChain (h : Parses .operand .disjunction ts e) : ¬BareChain ts := by
  rintro ⟨hfirst, hsecond, hoperand, before, after⟩
  obtain ⟨last, hwatch⟩ : ∃ last, watch _ [false] = some last := h.exists_watch (.inr rfl)
  rw [List.append_assoc, List.cons_append, watch_append, Option.bind_eq_some_iff] at hwatch
  obtain ⟨seen, -, hwatch⟩ := hwatch
  rw [watch_cons, Option.bind_eq_some_iff] at hwatch
  obtain ⟨seen₁, hone, hwatch⟩ := hwatch
  cases seen with
  | nil => contradiction
  | cons seen outer =>
    rw [watchToken_operator, hfirst] at hone
    split at hone
    · contradiction
    · cases hone
      rw [watch_binary, Option.bind_eq_some_iff] at hwatch
      obtain ⟨seen₂, hts, hwatch⟩ := hwatch
      obtain rfl := hoperand.watch_operand rfl hts
      rw [watchToken_operator, hsecond] at hwatch
      contradiction

end

theorem bareChain_tokens_iff {c : Condition} : BareChain c.tokens ↔ c.chains = true := by
  refine ⟨fun hchain => ?_, bareChain_of_chains⟩
  by_contra hnot
  have hparses : Parses .operand .disjunction c.tokens c.canonical :=
    (parses_tokens (.inr (Bool.eq_false_iff.2 hnot))).loosen c.tier.disjunction_le_level
  exact hparses.not_bareChain hchain

theorem parses_tokens_strict_iff {c e : Condition} :
    Parses .operand .disjunction c.tokens e ↔ c.chains = false ∧ e = c.canonical := by
  constructor
  · intro h
    have hnot : ¬c.chains = true := fun hchains => h.not_bareChain (bareChain_tokens_iff.2 hchains)
    exact ⟨Bool.eq_false_iff.2 hnot, parses_tokens_iff.1 h.associative⟩
  · rintro ⟨hchains, rfl⟩
    exact (parses_tokens (.inr hchains)).loosen c.tier.disjunction_le_level

/-- Comparisons that are right operands of comparisons stand in parentheses, and those that are left
operands do not: they are what makes chains, and the text is a phrase of the strict grammar exactly
if there are none. -/
theorem Condition.bareChain_iff (c : Condition) :
    (∀ op side before e after, c.Operand op side before e after →
      c.sql = before ++ e.sql ++ after ∧ (op.compares = true → e.compares = true →
        (Enclosed before after ↔ side = .right))) ∧
      ∃ ts, lex c.sql = some ts ∧ (BareChain ts ↔ c.chains = true) ∧
        ∀ e, Parses .operand .disjunction ts e ↔ c.chains = false ∧ e = c.canonical :=
  ⟨fun _ _ _ _ _ h => ⟨h.sql_eq, h.enclosed_iff⟩, c.tokens, (lexes_condition c).lex_eq,
    bareChain_tokens_iff, fun _ => parses_tokens_strict_iff⟩

def chained : Condition :=
  .binary .lt (.binary .eq (.ref ⟨"t", "a"⟩) (.ref ⟨"t", "b"⟩)) (.ref ⟨"t", "c"⟩)

theorem bareChain_chained :
    chained.sql = "\x60t\x60.\x60a\x60 = \x60t\x60.\x60b\x60 < \x60t\x60.\x60c\x60".toList ∧
      (∃ before e after, chained.Operand .lt .left before e after ∧ e.compares = true ∧
        ¬Enclosed before after) ∧
      ∃ ts, lex chained.sql = some ts ∧ BareChain ts ∧ ∀ e, ¬Parses .operand .disjunction ts e := by
  have hchain : BareChain chained.tokens := bareChain_tokens_iff.2 rfl
  have hoperand := Condition.Operand.here .lt .left
    (.binary .eq (.ref ⟨"t", "a"⟩) (.ref ⟨"t", "b"⟩)) (.ref ⟨"t", "c"⟩)
  refine ⟨by decide, ⟨_, _, _, hoperand, rfl, fun henclosed => ?_⟩, chained.tokens,
    (lexes_condition chained).lex_eq, hchain, fun e h => h.not_bareChain hchain⟩
  exact absurd ((hoperand.enclosed_iff rfl rfl).1 henclosed) nofun

end RelationalSelect
