import RelationalSelect.Query

set_option autoImplicit false

namespace RelationalSelect

def identifier (name : String) : List Char := quoted '\x60' name.toList

def Column.sql (c : Column) : List Char := identifier c.table ++ '.' :: identifier c.name

def Source.sql (s : Source) : List Char :=
  match s.asName with
  | some name => identifier s.table ++ " AS ".toList ++ identifier name
  | none => identifier s.table

def JoinKind.token : JoinKind → String
  | .inner => "INNER JOIN"
  | .leftOuter => "LEFT OUTER JOIN"

def Condition.sql (c : Condition) : List Char := Expr.sql Column.sql c

/-- A condition that binds weaker than AND stands in parentheses among others. -/
def Condition.conjunctSql (c : Condition) : List Char :=
  parenthesizedIf (c.precedence < Operator.and.precedence) (Condition.sql c)

def conjunctionSql : List Condition → List Char
  | [] => (Literal.boolean true).sql
  | c :: cs => " AND ".toList.intercalate ((c :: cs).map Condition.conjunctSql)

/-- How a statement is written: each clause on a line of its own or all on one line, and with or
without duplicate rows. -/
structure Style where
  pretty : Bool := true
  distinct : Bool := false
  deriving DecidableEq

namespace Style

def separator (s : Style) : Char := if s.pretty then '\n' else ' '

def indent (s : Style) : List Char := if s.pretty then [' ', ' '] else []

end Style

def Join.sql (style : Style) (j : Join) : List Char :=
  style.indent ++ j.kind.token.toList ++ ' ' :: j.source.sql ++
    style.separator :: style.indent ++ style.indent ++ "ON ".toList ++ conjunctionSql j.conditions

namespace Query

def selectSql (q : Query) (style : Style) : List Char :=
  "SELECT ".toList ++ (if style.distinct then "DISTINCT ".toList else []) ++
    if q.columns.isEmpty then ['*'] else commaSeparated (q.columns.map Column.sql)

def sql (q : Query) (style : Style) : List Char :=
  q.selectSql style ++
    style.separator :: "FROM ".toList ++ q.source.sql ++
    (q.joins.flatMap fun j => style.separator :: j.sql style) ++
    if q.filter.isEmpty then []
    else style.separator :: "WHERE ".toList ++ conjunctionSql q.filter

def render (q : Query) (style : Style) : String := String.ofList (q.sql style)

end Query

end RelationalSelect
