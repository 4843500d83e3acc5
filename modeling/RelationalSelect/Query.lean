import RelationalSelect.Relation

/-!
Compiled statements: one SELECT over a first source and the sources joined onto it in order.

A condition is an expression over columns, and a column is qualified by the name of a source. The
conditions of a clause are a list of conjuncts.
-/

set_option autoImplicit false

namespace RelationalSelect

structure Column where
  table : String
  name : String
  deriving DecidableEq

abbrev Condition := Expr Column

namespace Condition

def tables (c : Condition) : List String := c.refs.map Column.table

def within (c : Condition) (names : List String) : Bool := c.tables.all names.contains

theorem within_iff (c : Condition) (names : List String) :
    c.within names = true ↔ ∀ t ∈ c.tables, t ∈ names := by simp [within]

end Condition

/-- A base table in the FROM clause, under a name of its own if it has one. -/
structure Source where
  table : String
  asName : Option String
  deriving DecidableEq

namespace Source

/-- A source is renamed only when its name differs from that of the table. -/
def named (table name : String) : Source := ⟨table, if name = table then none else some name⟩

def name (s : Source) : String := s.asName.getD s.table

@[simp] theorem name_named (table name : String) : (named table name).name = name := by
  by_cases h : name = table <;> simp [named, Source.name, h]

end Source

structure Join where
  kind : JoinKind
  source : Source
  conditions : List Condition
  deriving DecidableEq

structure Query where
  columns : List Column
  source : Source
  joins : List Join
  filter : List Condition
  deriving DecidableEq

def Query.sources (q : Query) : List Source := q.source :: q.joins.map Join.source

def Join.agrees (a b : Join) : Bool :=
  a.kind == b.kind && a.source == b.source && a.conditions.isEqv b.conditions Expr.agrees

def Query.agrees (a b : Query) : Bool :=
  a.columns == b.columns && a.source == b.source && a.joins.isEqv b.joins Join.agrees &&
    a.filter.isEqv b.filter Expr.agrees

end RelationalSelect
