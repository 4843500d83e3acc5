import RelationalSelect.Proofs.Places
import RelationalSelect.Query

/-!
Rows of statements and of trees.

A statement is evaluated clause by clause: the first source, every join in order, WHERE, and the
columns of SELECT. A tree stands for the combinations of one row for each occurrence on which all
its predicates are true. Values, operators and what counts as true are parameters.
-/

set_option autoImplicit false

namespace RelationalSelect

/-- The meaning of literals and operators, and which values are true. -/
structure Interpretation (V : Type) where
  literal : Literal → V
  operator : Operator → V → V → V
  holds : V → Bool

abbrev Row (V : Type) := String → V

abbrev Database (V : Type) := String → List (Row V)

variable {V : Type}

namespace Interpretation

/-- The row in place of one that is missing: NULL in every column. -/
def nullRow (I : Interpretation V) : Row V := fun _ => I.literal .null

def rowOf {κ : Type} [BEq κ] (I : Interpretation V) (k : κ) (rows : List (κ × Row V)) : Row V :=
  (rows.lookup k).getD I.nullRow

/-- Integers, with nothing for NULL and for what is unknown. A number other than zero is true. -/
def integers : Interpretation (Option Int) where
  literal
    | .integer n => some n
    | .boolean b => some b.toInt
    | _ => none
  operator
    | .eq, v, w => return (decide ((← v) = (← w))).toInt
    | .ne, v, w => return (decide ((← v) ≠ (← w))).toInt
    | .lt, v, w => return (decide ((← v) < (← w))).toInt
    | .le, v, w => return (decide ((← v) ≤ (← w))).toInt
    | .gt, v, w => return (decide ((← v) > (← w))).toInt
    | .ge, v, w => return (decide ((← v) ≥ (← w))).toInt
    | .and, some 0, _ | .and, _, some 0 => some 0
    | .and, v, w => return (← v) * (← w)
    | .or, some 0, v | .or, v, some 0 => v
    | .or, some v, _ | .or, _, some v => some v
    | .or, none, none => none
  holds v := v.any (· ≠ 0)

end Interpretation

def Row.ofList (cells : List (String × Int)) : Row (Option Int) := fun name => cells.lookup name

def Expr.value {α : Type} (I : Interpretation V) (read : α → V) : Expr α → V
  | .ref a => read a
  | .literal v => I.literal v
  | .binary op l r => I.operator op (l.value I read) (r.value I read)

def extendBy {κ : Type} (k : κ) (table : List (Row V)) (rows : List (κ × Row V)) :
    List (List (κ × Row V)) := table.map fun row => rows ++ [(k, row)]

abbrev Frame (V : Type) := List (String × Row V)

def Frame.read (I : Interpretation V) (f : Frame V) (c : Column) : V := I.rowOf c.table f c.name

def Condition.holds (I : Interpretation V) (f : Frame V) (c : Condition) : Bool :=
  I.holds (c.value I (Frame.read I f))

namespace Join

def found (I : Interpretation V) (db : Database V) (j : Join) (f : Frame V) : List (Frame V) :=
  (extendBy j.source.name (db j.source.table) f).filter fun g =>
    j.conditions.all (Condition.holds I g)

/-- A left outer join keeps a frame for which nothing is found. -/
def extend (I : Interpretation V) (db : Database V) (j : Join) (f : Frame V) : List (Frame V) :=
  match j.kind, j.found I db f with
  | .leftOuter, [] => [f ++ [(j.source.name, I.nullRow)]]
  | _, frames => frames

def inScope (visible : List String) : List Join → Bool
  | [] => true
  | j :: rest =>
      j.conditions.all (·.within (visible ++ [j.source.name])) &&
        inScope (visible ++ [j.source.name]) rest

end Join

namespace Query

/-- No name is given twice, and every clause names only sources that it can see. -/
def wellScoped (q : Query) : Bool :=
  let names := q.sources.map Source.name
  decide names.Nodup && Join.inScope [q.source.name] q.joins &&
    q.filter.all (·.within names) && q.columns.all fun c => names.contains c.table

def joined (I : Interpretation V) (db : Database V) (q : Query) : List (Frame V) :=
  q.joins.foldl (fun frames j => frames.flatMap (j.extend I db))
    (extendBy q.source.name (db q.source.table) [])

def frames (I : Interpretation V) (db : Database V) (q : Query) : List (Frame V) :=
  (q.joined I db).filter fun f => q.filter.all (Condition.holds I f)

/-- The rows that a statement returns. One that names what it cannot see is refused. -/
def rows? (I : Interpretation V) (db : Database V) (q : Query) : Option (List (List V)) :=
  if q.wellScoped then some ((q.frames I db).map fun f => q.columns.map (Frame.read I f)) else none

end Query

namespace Relation

def baseRows (db : Database V) (o : Relation) : List (Row V) :=
  match o.baseName with
  | .ok name => db name
  | .error _ => []

def combinations (db : Database V) (root : Relation) : List (List (Identity × Row V)) :=
  root.occurrences.foldl (fun found o => found.flatMap (extendBy o.id (o.baseRows db))) [[]]

/-- The value of an attribute for a predicate inside an alias, or inside none. -/
def read (I : Interpretation V) (root : Relation) (outermost : Option Relation)
    (rows : List (Identity × Row V)) (x : Attribute) : V :=
  match root.carrierWithin outermost x.owner with
  | some o => I.rowOf o.id rows x.name
  | none => I.literal .null

end Relation

def Placed.holds (I : Interpretation V) (root : Relation) (rows : List (Identity × Row V))
    (p : Placed) : Bool :=
  I.holds (p.predicate.value I (root.read I p.around.getLast? rows))

/-- The rows for which a tree stands. -/
def Relation.rows (I : Interpretation V) (db : Database V) (root : Relation) : List (List V) :=
  ((root.combinations db).filter fun rows => root.placed.all (Placed.holds I root rows)).map
    fun rows => root.attributes.map (root.read I none rows)

end RelationalSelect
