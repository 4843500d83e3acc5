import RelationalSelect.Journal
import RelationalSelect.Roster

/-!
Display names for the occurrences of a tree.

Occurrences are named in the order in which FROM lists them. The first one of a base table has the
name of the table, later ones are numbered from two on, and a name that is already taken is passed
over. Names depend on the shape of the tree only. An identity that occurs twice would need two
names, so it is refused.

Inside an alias everything goes by the name of the alias. Outside, an occurrence goes by its own
name, and a relation that only stands inside aliases by the name of the first of them.
-/

set_option autoImplicit false

namespace RelationalSelect

instance : Ord Identity := ⟨fun a b => compare a.index b.index⟩

theorem Identity.compare_eq (a b : Identity) : compare a b = compare a.index b.index := rfl

instance : Std.TransOrd Identity where
  eq_swap {a b} := by simp only [Identity.compare_eq, Std.OrientedCmp.eq_swap (a := a.index)]
  isLE_trans {a b c} h₁ h₂ := by
    simp only [Identity.compare_eq] at *
    exact Std.TransCmp.isLE_trans h₁ h₂

instance : Std.LawfulEqOrd Identity where
  eq_of_compare {a b} h := by
    cases a
    cases b
    simpa [Identity.compare_eq] using h

def numbered (base : String) (n : Nat) : String :=
  if n = 1 then base else String.ofList (base.toList ++ '_' :: Nat.toDigits 10 n)

structure Occurrence where
  base : String
  number : Nat
  covered : List Identity

def Occurrence.name (o : Occurrence) : String := numbered o.base o.number

abbrev Naming := Roster Identity Occurrence

/-- The names by which relations go at some place of a tree. -/
abbrev View := Identity → Option String

namespace View

def display (view : View) (id : Identity) : Except Error String :=
  match view id with
  | some name => .ok name
  | none => .error (.malformedTree .unnamedRelation)

def column (view : View) (a : Attribute) : Except Error Column :=
  match view a.owner with
  | some table => .ok ⟨table, a.name⟩
  | none => .error (.unknownAttribute a.name)

def condition (view : View) (p : Predicate) : Except Error Condition := p.mapM view.column

end View

namespace Naming

def toStrings (names : Naming) : List String := names.values.map Occurrence.name

def lastNumber (names : Naming) (base : String) : Nat :=
  names.values.foldl (fun n o => if o.base = base then o.number else n) 0

/-- The first number after `n` whose name is free. Among one more numbers than there are names,
one is free. -/
def freeNumber (taken : List String) (base : String) (n : Nat) : Nat :=
  ((List.range' (n + 1) (taken.length + 1)).find? fun k =>
    !taken.contains (numbered base k)).getD (n + 1)

def add (names : Naming) (r : Relation) : Logged Naming := do
  if names.contains r.id then
    Logged.malformed .repeatedOccurrence
  else
    let base ← r.baseName
    let number := freeNumber names.toStrings base (names.lastNumber base)
    Logged.record (.named r.id base (numbered base number))
    return names.insert r.id ⟨base, number, r.ids⟩

def assign (root : Relation) : Logged Naming := do
  let names ← root.forOccurrences add Roster.empty
  Logged.record (.assigned names.toStrings)
  return names

/-- Outside all aliases an occurrence goes by its own name, and what only stands inside aliases by
the name of the first of them. -/
def outside (names : Naming) : View := fun id =>
  ((names.get? id).or (names.values.find? (·.covered.contains id))).map Occurrence.name

/-- Inside an alias that is an occurrence, all that it covers goes by its name, and all else as
around it. -/
def inside (names : Naming) (a : Identity) (around : View) : View := fun id =>
  match names.get? a with
  | some o => if o.covered.contains id then some o.name else around id
  | none => around id

end Naming

end RelationalSelect
