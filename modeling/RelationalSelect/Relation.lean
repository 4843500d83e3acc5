import RelationalSelect.Error
import RelationalSelect.Expr

/-!
Trees of relational algebra: base tables, aliases, selections and joins.

Every node has an identity, and identity decides what is the same relation: two tables of one name
are two relations, and so are a table and its alias. An attribute names its owner by identity.

The tables and aliases that stand in the FROM clause of a tree are its occurrences. They are met
left before right, through selections and joins but not inside aliases.
-/

set_option autoImplicit false

namespace RelationalSelect

structure Identity where
  index : Nat
  deriving DecidableEq

/-- A supply of identities, handed out in ascending order, so that no two nodes built from it share
one. -/
structure Supply where
  next : Nat := 0

abbrev Fresh := StateM Supply

def Identity.fresh : Fresh Identity := modifyGet fun s => (⟨s.next⟩, ⟨s.next + 1⟩)

structure Attribute where
  owner : Identity
  name : String
  deriving DecidableEq

abbrev Predicate := Expr Attribute

inductive JoinKind where
  | inner | leftOuter
  deriving DecidableEq

inductive Relation where
  | table (id : Identity) (name : String) (columns : List String)
  | aliased (id : Identity) (inner : Relation)
  | selection (id : Identity) (inner : Relation) (predicate : Predicate)
  | join (id : Identity) (kind : JoinKind) (left right : Relation) (predicate : Predicate)
  deriving DecidableEq

namespace Relation

def id : Relation → Identity
  | .table id _ _ | .aliased id _ | .selection id _ _ | .join id _ _ _ _ => id

def same (r s : Relation) : Bool := r.id == s.id

/-- The identities of all nodes, insides of aliases included. -/
def ids : Relation → List Identity
  | .table id _ _ => [id]
  | .aliased id inner | .selection id inner _ => id :: inner.ids
  | .join id _ left right _ => id :: (left.ids ++ right.ids)

def contains (id : Identity) : Relation → Bool
  | .table own _ _ => own == id
  | .aliased own inner | .selection own inner _ => own == id || inner.contains id
  | .join own _ left right _ => own == id || left.contains id || right.contains id

theorem contains_iff (id : Identity) (r : Relation) : r.contains id = true ↔ id ∈ r.ids := by
  induction r with
  | table own => simp [contains, ids, eq_comm (a := id)]
  | aliased own _ ih | selection own _ _ ih => simp [contains, ids, ih, eq_comm (a := id)]
  | join own _ _ _ _ ihl ihr => simp [contains, ids, ihl, ihr, or_assoc, eq_comm (a := id)]

theorem id_mem_ids (r : Relation) : r.id ∈ r.ids := by cases r <;> simp [id, ids]

def columns : Relation → List String
  | .table _ _ columns => columns
  | .aliased _ inner | .selection _ inner _ => inner.columns
  | .join _ _ left right _ => left.columns ++ right.columns

def hasColumn (name : String) : Relation → Bool
  | .table _ _ columns => columns.contains name
  | .aliased _ inner | .selection _ inner _ => inner.hasColumn name
  | .join _ _ left right _ => left.hasColumn name || right.hasColumn name

theorem hasColumn_iff (name : String) (r : Relation) :
    r.hasColumn name = true ↔ name ∈ r.columns := by
  induction r with
  | table => simp [hasColumn, columns]
  | aliased _ _ ih | selection _ _ _ ih => simp [hasColumn, columns, ih]
  | join _ _ _ _ _ ihl ihr => simp [hasColumn, columns, ihl, ihr]

def baseName : Relation → Except Error String
  | .table _ name _ => .ok name
  | .aliased _ inner | .selection _ inner _ => inner.baseName
  | .join .. => .error (.malformedTree .joinWithoutBase)

/-- What an alias projects belongs to the alias. -/
def attributes : Relation → List Attribute
  | .table id _ columns => columns.map (⟨id, ·⟩)
  | .aliased id inner => inner.attributes.map ({ · with owner := id })
  | .selection _ inner _ => inner.attributes
  | .join _ _ left right _ => left.attributes ++ right.attributes

theorem map_name_attributes (r : Relation) : r.attributes.map Attribute.name = r.columns := by
  induction r with
  | table => simp [attributes, columns, Function.comp_def]
  | aliased _ _ ih => simp [attributes, columns, ← ih, Function.comp_def]
  | selection _ _ _ ih => simp [attributes, columns, ih]
  | join _ _ _ _ _ ihl ihr => simp [attributes, columns, ihl, ihr]

def occurrences : Relation → List Relation
  | .table id name columns => [.table id name columns]
  | .aliased id inner => [.aliased id inner]
  | .selection _ inner _ => inner.occurrences
  | .join _ _ left right _ => left.occurrences ++ right.occurrences

def occurrence? (p : Relation → Bool) : Relation → Option Relation
  | .table id name columns => Option.guard p (.table id name columns)
  | .aliased id inner => Option.guard p (.aliased id inner)
  | .selection _ inner _ => inner.occurrence? p
  | .join _ _ left right _ => left.occurrence? p <|> right.occurrence? p

theorem occurrence?_eq_find? (p : Relation → Bool) (r : Relation) :
    r.occurrence? p = r.occurrences.find? p := by
  induction r with
  | table | aliased =>
    simp only [occurrence?, occurrences, Option.guard, List.find?_cons]
    split <;> simp_all
  | selection _ _ _ ih => simp [occurrence?, occurrences, ih]
  | join _ _ _ _ _ ihl ihr => simp [occurrence?, occurrences, ihl, ihr, List.find?_append]

def forOccurrences {σ : Type} {m : Type → Type} [Monad m] (step : σ → Relation → m σ)
    (s : σ) : Relation → m σ
  | .table id name columns => step s (.table id name columns)
  | .aliased id inner => step s (.aliased id inner)
  | .selection _ inner _ => inner.forOccurrences step s
  | .join _ _ left right _ => do
      let s ← left.forOccurrences step s
      right.forOccurrences step s

theorem forOccurrences_eq_foldlM {σ : Type} {m : Type → Type} [Monad m] [LawfulMonad m]
    (step : σ → Relation → m σ) (s : σ) (r : Relation) :
    r.forOccurrences step s = r.occurrences.foldlM step s := by
  induction r generalizing s with
  | table | aliased => simp [forOccurrences, occurrences]
  | selection _ _ _ ih => simp [forOccurrences, occurrences, ih]
  | join _ _ _ _ _ ihl ihr => simp [forOccurrences, occurrences, ihl, ihr, List.foldlM_append]

def attributeNamed (r : Relation) (name : String) : Except Error Attribute :=
  match r.occurrence? (hasColumn name) with
  | some o => .ok ⟨o.id, name⟩
  | none => .error (.unknownAttribute name)

/-- Binds an attribute of a component to the occurrence that carries its owner: the owner itself,
or else the first alias around it. -/
def resolve (r : Relation) (a : Attribute) : Option Attribute := do
  let o ← r.occurrence? (·.id == a.owner) <|> r.occurrence? (contains a.owner)
  if o.hasColumn a.name then some { a with owner := o.id } else none

def newTable (name : String) (columns : List String) : Fresh Relation :=
  return .table (← Identity.fresh) name columns

def asAlias (inner : Relation) : Fresh Relation :=
  return .aliased (← Identity.fresh) inner

def select (inner : Relation) (predicate : Predicate) : Fresh Relation :=
  return .selection (← Identity.fresh) inner predicate

def joinOn (kind : JoinKind) (left right : Relation) (predicate : Predicate) : Fresh Relation :=
  return .join (← Identity.fresh) kind left right predicate

end Relation

end RelationalSelect
