set_option autoImplicit false

namespace RelationalSelect

inductive Malformation where
  | repeatedOccurrence
  | joinWithoutBase
  | unnamedRelation
  | aliasedJoin
  | compoundOuterJoin
  | earlySelection
  | earlyJoinCondition
  deriving DecidableEq

def Malformation.message : Malformation → String
  | .repeatedOccurrence => "relation occurs more than once; alias it"
  | .joinWithoutBase => "a join has no base table"
  | .unnamedRelation => "relation was not named"
  | .aliasedJoin => "cannot alias a join"
  | .compoundOuterJoin => "cannot outer join a compound relation"
  | .earlySelection => "selection refers to a relation joined later"
  | .earlyJoinCondition => "join condition refers to a relation joined later"

inductive Error where
  /-- No reachable relation has a column of this name, or the owner of the attribute is not in the
  tree. -/
  | unknownAttribute (name : String)
  | unknownTable (name : String)
  | malformedTree (cause : Malformation)
  deriving DecidableEq

def Error.message : Error → String
  | .unknownAttribute name => "Unknown attribute: " ++ name
  | .unknownTable name => "Unknown table: " ++ name
  | .malformedTree cause => "Malformed relation tree: " ++ cause.message

end RelationalSelect
