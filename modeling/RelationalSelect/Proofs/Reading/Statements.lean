import RelationalSelect.Proofs.Reading.Conjunctions

/-!
Reading statements back from their text.

The tokens of a statement are cut into clauses at the words that begin one. No quoted name and no
quoted text is such a word, and none stands in a condition, so the clauses are those that were
written. What the text tells is the statement itself, with its conjuncts taken apart and one NaN for
all of them, and whether duplicate rows are left out.
-/

set_option autoImplicit false

namespace RelationalSelect

inductive Opening where
  | columns
  | source
  | join (kind : JoinKind)
  | conditions
  | filter
  deriving DecidableEq

namespace Opening

def token : Opening → Token
  | .columns => .keyword "SELECT"
  | .source => .keyword "FROM"
  | .join .inner => .keyword "INNER"
  | .join .leftOuter => .keyword "LEFT"
  | .conditions => .keyword "ON"
  | .filter => .keyword "WHERE"

def all : List Opening :=
  [.columns, .source, .join .inner, .join .leftOuter, .conditions, .filter]

def read (t : Token) : Option Opening := all.find? fun o => o.token == t

theorem read_token (o : Opening) : read o.token = some o := by
  rcases o with _ | _ | (_ | _) | _ | _ <;> rfl

end Opening

structure Clause where
  opening : Opening
  body : List Token

def Clause.tokens (c : Clause) : List Token := c.opening.token :: c.body

/-- The clauses in some tokens, and what stands before the first. -/
def cut : List Token → List Token × List Clause
  | [] => ([], [])
  | t :: ts =>
      match Opening.read t with
      | some o => ([], ⟨o, (cut ts).1⟩ :: (cut ts).2)
      | none => (t :: (cut ts).1, (cut ts).2)

def Source.tokens (s : Source) : List Token :=
  match s.asName with
  | some name => [.name s.table.toList, .keyword "AS", .name name.toList]
  | none => [.name s.table.toList]

def JoinKind.furtherTokens : JoinKind → List Token
  | .inner => [.keyword "JOIN"]
  | .leftOuter => [.keyword "OUTER", .keyword "JOIN"]

def Join.clauses (j : Join) : List Clause :=
  [⟨.join j.kind, j.kind.furtherTokens ++ j.source.tokens⟩,
    ⟨.conditions, conjunctionTokens j.conditions⟩]

def columnsTokens : List Column → List Token
  | [] => [.word ['*']]
  | c :: cs => c.tokens ++ cs.flatMap fun c => .word [','] :: c.tokens

def distinctTokens (distinct : Bool) : List Token := if distinct then [.keyword "DISTINCT"] else []

def filterClauses : List Condition → List Clause
  | [] => []
  | c :: cs => [⟨.filter, conjunctionTokens (c :: cs)⟩]

def Query.clauses (q : Query) (distinct : Bool) : List Clause :=
  ⟨.columns, distinctTokens distinct ++ columnsTokens q.columns⟩ :: ⟨.source, q.source.tokens⟩ ::
    (q.joins.flatMap Join.clauses ++ filterClauses q.filter)

def readSource : List Token → Option Source
  | [.name table] => some ⟨String.ofList table, none⟩
  | [.name table, .word ['A', 'S'], .name name] =>
      some ⟨String.ofList table, some (String.ofList name)⟩
  | _ => none

def readColumnRow : List Token → Option (List Column)
  | [.name table, .word ['.'], .name name] => some [⟨String.ofList table, String.ofList name⟩]
  | .name table :: .word ['.'] :: .name name :: .word [','] :: ts =>
      (readColumnRow ts).map (⟨String.ofList table, String.ofList name⟩ :: ·)
  | _ => none

def readColumns (ts : List Token) : Option (List Column) :=
  if ts = [.word ['*']] then some [] else readColumnRow ts

def readJoins : List Clause → Option (List Join × List Condition)
  | [] => some ([], [])
  | [⟨.filter, body⟩] => (readConjunction body).map fun filter => ([], filter)
  | ⟨.join kind, body⟩ :: ⟨.conditions, conditions⟩ :: rest => do
      let source ← (body.dropPrefix? kind.furtherTokens).bind readSource
      let conditions ← readConjunction conditions
      let (joins, filter) ← readJoins rest
      return (⟨kind, source, conditions⟩ :: joins, filter)
  | _ => none

def readDistinct (ts : List Token) : Bool × List Token :=
  match ts.dropPrefix? (distinctTokens true) with
  | some ts => (true, ts)
  | none => (false, ts)

def readClauses : List Clause → Option (Bool × Query)
  | ⟨.columns, head⟩ :: ⟨.source, body⟩ :: rest => do
      let (distinct, columns) := readDistinct head
      let columns ← readColumns columns
      let source ← readSource body
      let (joins, filter) ← readJoins rest
      return (distinct, ⟨columns, source, joins, filter⟩)
  | _ => none

/-- Reads a statement, and whether it leaves out duplicate rows. -/
def readStatement (s : String) : Option (Bool × Query) := do
  let (before, clauses) := cut (← lex s.toList)
  if before = [] then readClauses clauses else none

def readSourceText (s : String) : Option Source := (lex s.toList).bind readSource

def readJoinText (s : String) : Option Join := do
  let (before, clauses) := cut (← lex s.toList)
  match before, ← readJoins clauses with
  | [], ([j], []) => some j
  | _, _ => none

def Join.normal (j : Join) : Join := { j with conditions := normalConditions j.conditions }

def Query.normal (q : Query) : Query :=
  { q with joins := q.joins.map Join.normal, filter := normalConjuncts q.filter }

theorem readSource_tokens (s : Source) : readSource s.tokens = some s := by
  obtain ⟨table, asName⟩ := s
  cases asName with
  | none => simp [Source.tokens, readSource]
  | some name => simp [Source.tokens, readSource, Token.keyword]

theorem readColumnRow_tokens (c : Column) (cs : List Column) :
    readColumnRow (columnsTokens (c :: cs)) = some (c :: cs) := by
  induction cs generalizing c with
  | nil => simp [columnsTokens, Column.tokens, readColumnRow]
  | cons d cs ih =>
    have hstep : columnsTokens (c :: d :: cs) = .name c.table.toList :: .word ['.'] ::
        .name c.name.toList :: .word [','] :: columnsTokens (d :: cs) := rfl
    rw [hstep, readColumnRow, ih]
    simp

theorem readColumns_tokens (cs : List Column) : readColumns (columnsTokens cs) = some cs := by
  cases cs with
  | nil => rfl
  | cons c cs =>
    have hne : columnsTokens (c :: cs) ≠ [.word ['*']] := by simp [columnsTokens, Column.tokens]
    exact (if_neg hne).trans (readColumnRow_tokens c cs)

theorem readDistinct_tokens (distinct : Bool) (cs : List Column) :
    readDistinct (distinctTokens distinct ++ columnsTokens cs) = (distinct, columnsTokens cs) := by
  unfold readDistinct
  cases distinct with
  | true => rw [List.dropPrefix?_append_of_beq _ (BEq.refl _)]
  | false =>
    cases cs with
    | nil => rfl
    | cons c cs => rfl

theorem readJoins_clauses (joins : List Join) (filter : List Condition) :
    readJoins (joins.flatMap Join.clauses ++ filterClauses filter) =
      some (joins.map Join.normal, normalConjuncts filter) := by
  induction joins with
  | nil =>
    cases filter with
    | nil => rfl
    | cons c cs => simp [filterClauses, readJoins, readConjunction_tokens, normalConditions]
  | cons j joins ih =>
    have hprefix := List.dropPrefix?_append_of_beq j.source.tokens (BEq.refl j.kind.furtherTokens)
    simp [Join.clauses, readJoins, hprefix, readSource_tokens, readConjunction_tokens, ih,
      Join.normal]

theorem readClauses_clauses (q : Query) (distinct : Bool) :
    readClauses (q.clauses distinct) = some (distinct, q.normal) := by
  simp [Query.clauses, readClauses, readDistinct_tokens, readColumns_tokens, readSource_tokens,
    readJoins_clauses, Query.normal]

def Plain (ts : List Token) : Prop := ∀ t ∈ ts, Opening.read t = none

theorem Plain.append {ts us : List Token} (ht : Plain ts) (hu : Plain us) : Plain (ts ++ us) :=
  List.forall_mem_append.2 ⟨ht, hu⟩

theorem Plain.cons {t : Token} {ts : List Token} (ht : Opening.read t = none) (h : Plain ts) :
    Plain (t :: ts) := List.forall_mem_cons.2 ⟨ht, h⟩

theorem Plain.nil : Plain [] := List.forall_mem_nil _

theorem Plain.flatMap {α : Type} {f : α → List Token} (h : ∀ x, Plain (f x)) (xs : List α) :
    Plain (xs.flatMap f) := fun t ht => by
  obtain ⟨x, -, hx⟩ := List.mem_flatMap.1 ht
  exact h x t hx

theorem cut_append {ts : List Token} (h : Plain ts) (us : List Token) :
    cut (ts ++ us) = (ts ++ (cut us).1, (cut us).2) := by
  induction ts with
  | nil => rfl
  | cons t ts ih =>
    obtain ⟨ht, hts⟩ := List.forall_mem_cons.1 h
    simp [cut, ht, ih hts]

theorem cut_clauses {cs : List Clause} (h : ∀ c ∈ cs, Plain c.body) :
    cut (cs.flatMap Clause.tokens) = ([], cs) := by
  induction cs with
  | nil => rfl
  | cons c cs ih =>
    obtain ⟨hc, hcs⟩ := List.forall_mem_cons.1 h
    simp [Clause.tokens, cut, Opening.read_token, cut_append hc, ih hcs]

/-- No literal begins a clause: the words that do are no literals. -/
theorem Opening.read_of_readLiteral {t : Token} {v : Literal} (h : readLiteral t = some v) :
    Opening.read t = none := by
  refine Option.eq_none_iff_forall_ne_some.2 fun o ho => ?_
  have hnone : readLiteral o.token = none := by rcases o with _ | _ | (_ | _) | _ | _ <;> rfl
  have heq : o.token = t := by simpa using List.find?_some ho
  rw [heq, h] at hnone
  contradiction

theorem plain_column (c : Column) : Plain c.tokens :=
  .cons rfl (.cons rfl (.cons rfl .nil))

theorem Plain.bracketed {p : Prop} [Decidable p] {ts : List Token} (h : Plain ts) :
    Plain (bracketIf p ts) := by
  unfold bracketIf
  split
  · exact .append (.cons rfl h) (.cons rfl .nil)
  · exact h

theorem plain_keyword (op : Operator) : Opening.read (.keyword op.token) = none := by
  cases op <;> rfl

theorem plain_condition (e : Condition) : Plain e.tokens := by
  induction e with
  | ref c => exact plain_column c
  | literal v => exact .cons (Opening.read_of_readLiteral (readLiteral_token v)) .nil
  | binary op l r ihl ihr => exact .append ihl.bracketed (.cons (plain_keyword op) ihr.bracketed)

theorem plain_conjunction (cs : List Condition) : Plain (conjunctionTokens cs) := by
  cases cs with
  | nil => exact .cons rfl .nil
  | cons c cs =>
    have hconjunct (d : Condition) : Plain d.conjunctTokens := (plain_condition d).bracketed
    exact .append (hconjunct c) (.flatMap (fun d => .cons (plain_keyword .and) (hconjunct d)) cs)

theorem plain_source (s : Source) : Plain s.tokens := by
  unfold Source.tokens
  split
  · exact .cons rfl (.cons rfl (.cons rfl .nil))
  · exact .cons rfl .nil

theorem plain_columns (cs : List Column) : Plain (columnsTokens cs) := by
  cases cs with
  | nil => exact .cons rfl .nil
  | cons c cs => exact (plain_column c).append (.flatMap (fun d => .cons rfl (plain_column d)) cs)

theorem plain_join (j : Join) : ∀ c ∈ j.clauses, Plain c.body := by
  have hkind : Plain j.kind.furtherTokens := by
    cases j.kind with
    | inner => exact .cons rfl .nil
    | leftOuter => exact .cons rfl (.cons rfl .nil)
  simpa [Join.clauses] using ⟨hkind.append (plain_source j.source), plain_conjunction j.conditions⟩

theorem plain_clauses (q : Query) (distinct : Bool) : ∀ c ∈ q.clauses distinct, Plain c.body := by
  have hdistinct : Plain (distinctTokens distinct) := by
    cases distinct with
    | true => exact .cons rfl .nil
    | false => exact .nil
  have hjoins : ∀ c ∈ q.joins.flatMap Join.clauses, Plain c.body := fun c hc => by
    obtain ⟨j, -, hj⟩ := List.mem_flatMap.1 hc
    exact plain_join j c hj
  have hfilter : ∀ c ∈ filterClauses q.filter, Plain c.body := by
    cases q.filter with
    | nil => exact List.forall_mem_nil _
    | cons c cs => simpa [filterClauses] using plain_conjunction (c :: cs)
  exact List.forall_mem_cons.2 ⟨hdistinct.append (plain_columns q.columns),
    List.forall_mem_cons.2 ⟨plain_source q.source, List.forall_mem_append.2 ⟨hjoins, hfilter⟩⟩⟩

theorem Style.isBlank_separator (style : Style) : isBlank style.separator = true := by
  unfold Style.separator
  split <;> rfl

theorem Style.isEnd_separator (style : Style) : isEnd style.separator = true := by
  simp [isEnd, style.isBlank_separator]

theorem Lexes.indented {style : Style} {s : List Char} {ts : List Token} (h : Lexes s ts) :
    Lexes (style.indent ++ s) ts := by
  unfold Style.indent
  split
  · exact .blank rfl (.blank rfl h)
  · exact h

theorem Lexes.led {w : String} (hne : w.toList ≠ []) (hw : w.toList.all isLetter = true)
    {s : List Char} {ts : List Token} (h : Lexes s ts) :
    Lexes (w.toList ++ ' ' :: s) (.keyword w :: ts) :=
  .append rfl (.letters hne (List.all_eq_true.1 hw)) (.blank rfl h)

theorem lexes_source (s : Source) : Lexes s.sql s.tokens := by
  unfold Source.sql Source.tokens
  cases s.asName with
  | none => exact .name _
  | some name =>
    simp only [List.append_assoc]
    exact .append (c := ' ') rfl (.name _)
      (.blank rfl (.led (w := "AS") (by decide) rfl (.name name.toList)))

theorem lexes_columns (cs : List Column) :
    Lexes (if cs.isEmpty then ['*'] else commaSeparated (cs.map Column.sql))
      (columnsTokens cs) := by
  cases cs with
  | nil => exact .mark rfl .nil
  | cons c cs =>
    have hcolumn (d : Column) : Lexes d.sql d.tokens := .qualified _ _
    have hfurther (d : Column) : Lexes (',' :: ' ' :: d.sql) (.word [','] :: d.tokens) :=
      .mark rfl (.blank rfl (hcolumn d))
    change Lexes (commaSeparated (c.sql :: cs.map Column.sql)) _
    rw [commaSeparated_cons, List.flatMap_map]
    exact .row rfl hfurther (hcolumn c) cs

theorem lexes_select (q : Query) (style : Style) : Lexes (q.selectSql style)
    (.keyword "SELECT" :: (distinctTokens style.distinct ++ columnsTokens q.columns)) := by
  have hcolumns := lexes_columns q.columns
  unfold Query.selectSql distinctTokens
  cases style.distinct with
  | true =>
    exact .led (w := "SELECT") (by decide) rfl (.led (w := "DISTINCT") (by decide) rfl hcolumns)
  | false => exact .led (w := "SELECT") (by decide) rfl hcolumns

theorem lexes_kind (kind : JoinKind) :
    Lexes kind.token.toList ((Opening.join kind).token :: kind.furtherTokens) := by
  have hjoin : Lexes "JOIN".toList [.keyword "JOIN"] :=
    .letters (by decide) (List.all_eq_true.1 rfl)
  cases kind with
  | inner => exact .led (w := "INNER") (by decide) rfl hjoin
  | leftOuter =>
    exact .led (w := "LEFT") (by decide) rfl (.led (w := "OUTER") (by decide) rfl hjoin)

theorem lexes_join (style : Style) (j : Join) :
    Lexes (style.separator :: j.sql style) (j.clauses.flatMap Clause.tokens) := by
  have hsource : Lexes (' ' :: j.source.sql) j.source.tokens := .blank rfl (lexes_source j.source)
  have hon : Lexes (style.separator :: (style.indent ++ (style.indent ++
      ("ON ".toList ++ conjunctionSql j.conditions))))
      (.keyword "ON" :: conjunctionTokens j.conditions) :=
    .blank style.isBlank_separator (.indented (.indented
      (.led (w := "ON") (by decide) rfl (lexes_conjunctionSql j.conditions))))
  have h := ((lexes_kind j.kind).append rfl hsource).append style.isEnd_separator hon
  simpa [Join.sql, Join.clauses, Clause.tokens, Opening.token] using
    h.indented.blank style.isBlank_separator

theorem lexes_sql (q : Query) (style : Style) :
    Lexes (q.sql style) ((q.clauses style.distinct).flatMap Clause.tokens) := by
  have hsource : Lexes (style.separator :: ("FROM ".toList ++ q.source.sql))
      (.keyword "FROM" :: q.source.tokens) :=
    .blank style.isBlank_separator (.led (w := "FROM") (by decide) rfl (lexes_source q.source))
  have hjoins := Lexes.row style.isEnd_separator (lexes_join style)
    ((lexes_select q style).append style.isEnd_separator hsource) q.joins
  unfold Query.sql
  cases hfilter : q.filter with
  | nil =>
    simpa [Query.clauses, hfilter, filterClauses, List.flatMap_assoc, Clause.tokens,
      Opening.token] using hjoins
  | cons c cs =>
    have hwhere : Lexes (style.separator :: ("WHERE ".toList ++ conjunctionSql (c :: cs)))
        (.keyword "WHERE" :: conjunctionTokens (c :: cs)) :=
      .blank style.isBlank_separator
        (.led (w := "WHERE") (by decide) rfl (lexes_conjunctionSql (c :: cs)))
    have h := hjoins.append style.isEnd_separator hwhere
    simpa [Query.clauses, hfilter, filterClauses, List.flatMap_assoc, Clause.tokens,
      Opening.token] using h

theorem readStatement_render (q : Query) (style : Style) :
    readStatement (q.render style) = some (style.distinct, q.normal) := by
  have hlex := (lexes_sql q style).lex_eq
  have hcut := cut_clauses (plain_clauses q style.distinct)
  simp [readStatement, Query.render, hlex, hcut, readClauses_clauses]

theorem readSourceText_sql (s : Source) : readSourceText (String.ofList s.sql) = some s := by
  rw [readSourceText, String.toList_ofList, (lexes_source s).lex_eq]
  exact readSource_tokens s

theorem readJoinText_sql (j : Join) (style : Style) :
    readJoinText (String.ofList (j.sql style)) = some j.normal := by
  have hlex : lex (j.sql style) = some (j.clauses.flatMap Clause.tokens) := by
    rw [← lex_blank style.isBlank_separator]
    exact (lexes_join style j).lex_eq
  have hread := readJoins_clauses [j] []
  simp only [List.flatMap_singleton, filterClauses, List.append_nil] at hread
  simp [readJoinText, hlex, cut_clauses (plain_join j), hread, normalConjuncts]

/-- The text determines the statement: one reader gets back from every text, in either layout, what
has been written, so two statements with the same text are the same up to what no text tells. -/
theorem Query.read_render (q : Query) (style : Style) :
    readStatement (q.render style) = some (style.distinct, q.normal) ∧
      ∀ (q₁ : Query) (style₁ : Style), q₁.render style₁ = q.render style →
        style₁.distinct = style.distinct ∧ q₁.normal = q.normal := by
  refine ⟨readStatement_render q style, fun q₁ style₁ heq => ?_⟩
  have hread := readStatement_render q₁ style₁
  rw [heq, readStatement_render q style] at hread
  obtain ⟨hdistinct, hnormal⟩ := Prod.mk.inj (Option.some.inj hread)
  exact ⟨hdistinct.symm, hnormal.symm⟩

def Query.conjoined : Query :=
  ⟨[], ⟨"t", none⟩, [], [.binary .and (.ref ⟨"t", "a"⟩) (.ref ⟨"t", "b"⟩)]⟩

def Query.listed : Query := ⟨[], ⟨"t", none⟩, [], [.ref ⟨"t", "a"⟩, .ref ⟨"t", "b"⟩]⟩

/-- No text tells conjuncts from the operands of an AND. -/
theorem Query.read_conjoined : conjoined ≠ listed ∧ conjoined.render {} = listed.render {} ∧
    readStatement (listed.render {}) = some (false, listed.normal) ∧
    conjoined.normal = listed.normal :=
  have htext : conjoined.render {} = listed.render {} := by rfl
  ⟨by decide, htext, (read_render listed {}).1, ((read_render listed {}).2 conjoined {} htext).2⟩

end RelationalSelect
