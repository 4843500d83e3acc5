import Mathlib.Data.List.Induction
import Mathlib.Data.List.Nodup
import RelationalSelect.Catalog

set_option autoImplicit false

namespace RelationalSelect.Catalog

theorem names_ne (c : Catalog) : c.definitions.Pairwise (·.1 ≠ ·.1) :=
  c.sorted.imp String.ne_of_lt

theorem lookup_eq_some_iff {defs : List (String × List String)} (hne : defs.Pairwise (·.1 ≠ ·.1))
    {name : String} {columns : List String} :
    lookup name defs = some columns ↔ (name, columns) ∈ defs := by
  induction defs with
  | nil => simp [lookup]
  | cons entry rest ih =>
    obtain ⟨first, hrest⟩ := List.pairwise_cons.1 hne
    rw [lookup_cons, List.mem_cons]
    by_cases h : name = entry.1
    · have hnot : (name, columns) ∉ rest := fun hmem => first _ hmem h.symm
      rw [if_pos h, Option.some.injEq, or_iff_left hnot, Prod.ext_iff]
      exact ⟨fun hc => ⟨h, hc.symm⟩, fun he => he.2.symm⟩
    · rw [if_neg h, ih hrest, or_iff_right fun he => h (congrArg Prod.fst he)]

theorem eq_of_columns {a b : Catalog} (h : ∀ name, a.columns name = b.columns name) : a = b := by
  have hmem : ∀ d, d ∈ a.definitions ↔ d ∈ b.definitions := by
    intro d
    rw [← lookup_eq_some_iff a.names_ne, ← lookup_eq_some_iff b.names_ne]
    exact iff_of_eq (congrArg (· = some d.2) (h d.1))
  have distinct : ∀ c : Catalog, c.definitions.Nodup := fun c =>
    c.names_ne.imp (ne_of_apply_ne Prod.fst)
  have hperm := (List.perm_ext_iff_of_nodup (distinct a) (distinct b)).2 hmem
  have hdefinitions : a.definitions = b.definitions :=
    hperm.eq_of_pairwise (fun d e _ _ hde hed => absurd hed (String.lt_asymm hde)) a.sorted b.sorted
  cases a
  cases b
  congr

/-- Takes in further definitions, the first of them to begin with. -/
def define (c : Catalog) (defs : List (String × List String)) : Catalog :=
  defs.foldl (fun c d => c.insert d.1 d.2) c

theorem define_append (c : Catalog) (defs more : List (String × List String)) :
    c.define (defs ++ more) = (c.define defs).define more := List.foldl_append

theorem columns_define (defs : List (String × List String)) (name : String) :
    (empty.define defs).columns name = lookup name defs.reverse := by
  induction defs using List.reverseRec with
  | nil => rfl
  | append_singleton defs d ih =>
    have hlast : empty.define (defs ++ [d]) = (empty.define defs).insert d.1 d.2 :=
      define_append empty defs [d]
    rw [hlast, columns_insert, ih, List.reverse_append, List.reverse_singleton,
      List.singleton_append, lookup_cons]

theorem define_definitions (c : Catalog) : empty.define c.definitions = c := by
  have hne : c.definitions.reverse.Pairwise (·.1 ≠ ·.1) :=
    List.pairwise_reverse.2 (c.names_ne.imp Ne.symm)
  refine eq_of_columns fun name => Option.ext fun columns => ?_
  rw [columns_define, lookup_eq_some_iff hne, List.mem_reverse]
  exact (lookup_eq_some_iff c.names_ne).symm

structure Gives (c : Catalog) (name : String) : Prop where
  /-- A table that projects the columns known of the name, in order, as its own. -/
  known : ∀ columns, c.columns name = some columns → ∃ table, c.table name = .ok table ∧
    ∀ supply : Supply, (table.run supply).1.baseName = .ok name ∧
      (table.run supply).1.attributes = columns.map fun n => ⟨(table.run supply).1.id, n⟩
  unknown : c.columns name = none → c.table name = .error (.unknownTable name)

theorem gives (c : Catalog) (name : String) : Gives c name := by
  constructor
  · intro columns h
    refine ⟨Relation.newTable name columns, by simp [table, h], fun supply => ⟨rfl, rfl⟩⟩
  · intro h
    simp [table, h]

/-- What a history of definitions comes to. -/
theorem extensional (defs more : List (String × List String)) :
    (∀ name, (empty.define defs).columns name = lookup name defs.reverse) ∧
    (empty.define defs).define more = empty.define (defs ++ more) ∧
    (empty.define defs = empty.define more ↔
      ∀ name, (empty.define defs).columns name = (empty.define more).columns name) ∧
    ∀ name, Gives (empty.define defs) name :=
  ⟨columns_define defs, (define_append empty defs more).symm,
    ⟨fun h name => by rw [h], eq_of_columns⟩, gives _⟩

end RelationalSelect.Catalog
