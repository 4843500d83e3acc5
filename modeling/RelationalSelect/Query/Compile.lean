import RelationalSelect.Chain

set_option autoImplicit false

namespace RelationalSelect

namespace Query

def compileLogged (root : Relation) : Logged Query := do
  let names ← Naming.assign root
  let chain ← Chain.ofRelation names root names.outside .leading []
  let columns ← (root.attributes.mapM names.outside.column : Except Error (List Column))
  let query : Query := ⟨columns, chain.source, chain.joins, chain.conditions⟩
  Logged.record (.compiled query)
  return query

def compile (root : Relation) : Except Error Query := (compileLogged root).outcome

end Query

namespace Relation

def toSqlLogged (r : Relation) (style : Style) : Logged String :=
  (·.render style) <$> Query.compileLogged r

def toSql (r : Relation) (style : Style) : Except Error String :=
  (Query.compile r).map (·.render style)

theorem outcome_toSqlLogged (r : Relation) (style : Style) :
    (r.toSqlLogged style).outcome = r.toSql style := Logged.outcome_map _ _

end Relation

end RelationalSelect
