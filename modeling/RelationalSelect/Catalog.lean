import RelationalSelect.Relation

set_option autoImplicit false

namespace RelationalSelect

structure Catalog where
  definitions : List (String × List String)
  sorted : definitions.Pairwise (·.1 < ·.1)
  deriving DecidableEq

namespace Catalog

def empty : Catalog := ⟨[], .nil⟩

/-- Puts a definition where its name belongs, in place of an earlier one of that name. -/
def place (name : String) (columns : List String) :
    List (String × List String) → List (String × List String)
  | [] => [(name, columns)]
  | entry :: rest =>
      if name < entry.1 then (name, columns) :: entry :: rest
      else if name = entry.1 then (name, columns) :: rest
      else entry :: place name columns rest

theorem mem_place {name : String} {columns : List String} {d : String × List String}
    {defs : List (String × List String)} (h : d ∈ place name columns defs) :
    d = (name, columns) ∨ d ∈ defs := by
  induction defs with
  | nil => simpa [place] using h
  | cons entry rest ih =>
    simp only [place] at h
    split at h
    · simpa using h
    · split at h
      · rcases List.mem_cons.1 h with h | h <;> simp [h]
      · rcases List.mem_cons.1 h with h | h
        · simp [h]
        · rcases ih h with h | h <;> simp [h]

theorem pairwise_place (name : String) (columns : List String)
    {defs : List (String × List String)} (h : defs.Pairwise (·.1 < ·.1)) :
    (place name columns defs).Pairwise (·.1 < ·.1) := by
  induction defs with
  | nil => simp [place]
  | cons entry rest ih =>
    obtain ⟨first, tail⟩ := List.pairwise_cons.1 h
    simp only [place]
    split
    · next lt =>
      refine List.pairwise_cons.2 ⟨fun d hd => ?_, h⟩
      rcases List.mem_cons.1 hd with rfl | hd
      · exact lt
      · exact String.lt_trans lt (first d hd)
    · next not_lt =>
      split
      · next eq => exact List.pairwise_cons.2 ⟨fun d hd => eq ▸ first d hd, tail⟩
      · next ne =>
        refine List.pairwise_cons.2 ⟨fun d hd => ?_, ih tail⟩
        rcases mem_place hd with rfl | hd
        · exact Std.lt_of_le_of_ne (String.not_lt.1 not_lt) (Ne.symm ne)
        · exact first d hd

def insert (c : Catalog) (name : String) (columns : List String) : Catalog :=
  ⟨place name columns c.definitions, pairwise_place name columns c.sorted⟩

def lookup (name : String) (defs : List (String × List String)) : Option (List String) :=
  (defs.find? (·.1 == name)).map Prod.snd

theorem lookup_cons (name : String) (entry : String × List String)
    (rest : List (String × List String)) : lookup name (entry :: rest) =
      if name = entry.1 then some entry.2 else lookup name rest := by
  by_cases h : name = entry.1
  · simp [lookup, h]
  · simp [lookup, h, Ne.symm h]

theorem lookup_place (name : String) (columns : List String) (defs : List (String × List String))
    (other : String) : lookup other (place name columns defs) =
      if other = name then some columns else lookup other defs := by
  induction defs with
  | nil => simp [place, lookup_cons]
  | cons entry rest ih =>
    simp only [place]
    split
    · simp [lookup_cons]
    · split
      · next eq => by_cases h : other = name <;> simp [lookup_cons, h, eq ▸ h]
      · next ne =>
        by_cases h : other = entry.1
        · simp [lookup_cons, h, Ne.symm ne]
        · simp [lookup_cons, h, ih]

def columns (c : Catalog) (name : String) : Option (List String) := lookup name c.definitions

def table (c : Catalog) (name : String) : Except Error (Fresh Relation) :=
  match c.columns name with
  | some columns => .ok (Relation.newTable name columns)
  | none => .error (.unknownTable name)

@[simp] theorem columns_empty (name : String) : empty.columns name = none := rfl

theorem columns_insert (c : Catalog) (name : String) (columns : List String) (other : String) :
    (c.insert name columns).columns other =
      if other = name then some columns else c.columns other :=
  lookup_place name columns c.definitions other

end Catalog

end RelationalSelect
