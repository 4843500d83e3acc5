import RelationalSelect.Naming

/-!
Flattening a tree into a chain of joins: a first source and the clauses that follow it.

A selection in the right operand of a join becomes a conjunct of the ON clause that ends its
operand, and every other selection a conjunct of WHERE. The condition of a join stands in the first
of its clauses by which all the tables that it names have been joined: ahead of the other conjuncts
in the clause that the join introduces, behind them in a later one.
-/

set_option autoImplicit false

namespace RelationalSelect

/-- The part of a relation in FROM: it leads, or it is joined onto what stands before it. -/
inductive Role where
  | leading | joined
  deriving DecidableEq

/-- The conditions on the first source still wait for a clause. -/
structure Chain where
  source : Source
  conditions : List Condition
  joins : List Join
  /-- The names that its tables have brought into scope. -/
  entered : List String

namespace Join

def push (j : Join) (c : Condition) : Join := { j with conditions := j.conditions ++ [c] }

def pushFront (j : Join) (c : Condition) : Join := { j with conditions := c :: j.conditions }

@[simp] theorem source_push (j : Join) (c : Condition) : (j.push c).source = j.source := rfl

/-- Adds a condition to the first clause by which all its tables have been joined, and names the
source of that clause. -/
def defer (c : Condition) (visible : List String) : List Join → Option (Source × List Join)
  | [] => none
  | j :: rest =>
      let visible := visible ++ [j.source.name]
      if c.within visible then some (j.source, j.push c :: rest)
      else (defer c visible rest).map fun found => (found.1, j :: found.2)

end Join

namespace Chain

/-- Adds the condition of a selection to the last join of a right operand, or else to the
conditions on the first source. -/
def restrict (chain : Chain) (role : Role) (c : Condition) : Chain :=
  match role, chain.joins.getLast? with
  | .joined, some last => { chain with joins := chain.joins.dropLast ++ [last.push c] }
  | _, _ => { chain with conditions := chain.conditions ++ [c] }

@[simp] theorem source_restrict (chain : Chain) (role : Role) (c : Condition) :
    (chain.restrict role c).source = chain.source := by
  unfold restrict
  split <;> rfl

@[simp] theorem entered_restrict (chain : Chain) (role : Role) (c : Condition) :
    (chain.restrict role c).entered = chain.entered := by
  unfold restrict
  split <;> rfl

theorem map_source_restrict (chain : Chain) (role : Role) (c : Condition) :
    (chain.restrict role c).joins.map Join.source = chain.joins.map Join.source := by
  unfold restrict
  split
  · next last h =>
    obtain ⟨front, hf⟩ := List.getLast?_eq_some_iff.1 h
    simp [hf]
  · rfl

def clauses (right : Chain) (kind : JoinKind) (c : Condition) (visible : List String) :
    Logged (List Join) :=
  let first : Join := ⟨kind, right.source, right.conditions⟩
  let visible := visible ++ [first.source.name]
  if c.within visible then do
    Logged.record (.emitting (first.pushFront c))
    return first.pushFront c :: right.joins
  else
    match Join.defer c visible right.joins with
    | some (source, rest) => do
        Logged.record (.emitting first)
        Logged.record (.conditionMoved source)
        return first :: rest
    | none => Logged.malformed .earlyJoinCondition

/-- Flattens a relation that stands after tables with the names `before`. -/
def ofRelation (names : Naming) : Relation → View → Role → List String → Logged Chain
  | .table id name _, view, _, _ => do
      let display ← view.display id
      return ⟨Source.named name display, [], [], [display]⟩
  | .aliased id inner, view, role, before => do
      let display ← view.display id
      let chain ← ofRelation names inner (names.inside id view) role before
      if chain.joins.isEmpty then
        return { chain with source := Source.named chain.source.table display }
      else
        Logged.malformed .aliasedJoin
  | .selection _ inner predicate, view, role, before => do
      let chain ← ofRelation names inner view role before
      let condition ← view.condition predicate
      if role = .joined ∧ ¬ condition.within (before ++ chain.entered) then
        Logged.malformed .earlySelection
      else
        return chain.restrict role condition
  | .join _ kind left right predicate, view, role, before => do
      let chain ← ofRelation names left view role before
      let visible := before ++ chain.entered
      let right ← ofRelation names right view .joined visible
      if kind = .leftOuter ∧ ¬ right.joins.isEmpty then
        Logged.malformed .compoundOuterJoin
      else
        let condition ← view.condition predicate
        let joins ← right.clauses kind condition visible
        return { chain with
          joins := chain.joins ++ joins
          entered := chain.entered ++ right.entered }

end Chain

end RelationalSelect
