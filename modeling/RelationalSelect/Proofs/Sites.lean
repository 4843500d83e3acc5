import RelationalSelect.Proofs.Sources

/-!
The predicates of a tree and the clauses that may take them.

Clauses are counted like the sources of a statement: clause `k` is the ON clause of the source at
position `k`, and WHERE stands for the one that the first source lacks. A selection in a right
operand has one clause, that of the last occurrence beneath it, and every other selection has WHERE.
A join has the clauses of its right operand to choose from.
-/

set_option autoImplicit false

namespace RelationalSelect

/-- A predicate with the selection or join that has it, and the first and the last clause that may
take it. -/
structure Site extends Placed where
  node : Relation
  first : Nat
  last : Nat

namespace Relation

def isJoin : Relation → Bool
  | .join .. => true
  | _ => false

def beneath : Relation → List Relation
  | .table _ _ _ => []
  | .aliased _ inner | .selection _ inner _ => inner :: inner.beneath
  | .join _ _ left right _ => left :: left.beneath ++ right :: right.beneath

def nodes (r : Relation) : List Relation := r :: r.beneath

/-- The clause for the predicate of a selection whose occurrences stand from a position on. -/
def selectionClause (inner : Relation) : Role → Nat → Nat
  | .leading, _ => 0
  | .joined, n => n + inner.occurrences.length - 1

/-- The predicates of a part of a tree whose occurrences stand from a position on. -/
def sites : Relation → Role → Nat → List Site
  | .table _ _ _, _, _ => []
  | .aliased id inner, role, n =>
      (inner.sites role n).map fun s => { s with around := s.around ++ [.aliased id inner] }
  | .selection id inner predicate, role, n =>
      let clause := inner.selectionClause role n
      inner.sites role n ++ [⟨⟨[], predicate⟩, .selection id inner predicate, clause, clause⟩]
  | .join id kind left right predicate, role, n =>
      let first := n + left.occurrences.length
      left.sites role n ++ right.sites .joined first ++
        [⟨⟨[], predicate⟩, .join id kind left right predicate, first,
          first + right.occurrences.length - 1⟩]

/-- The predicates of the selections that are reached through selections, insides of aliases and
left operands, innermost first. -/
def leading : Relation → List Predicate
  | .table _ _ _ => []
  | .aliased _ inner => inner.leading
  | .selection _ inner predicate => inner.leading ++ [predicate]
  | .join _ _ left _ _ => left.leading

theorem map_id_nodes (r : Relation) : r.nodes.map id = r.ids := by
  induction r with
  | table => rfl
  | aliased _ _ ih | selection _ _ _ ih => simpa [nodes, beneath, ids, id] using ih
  | join _ _ _ _ _ ihl ihr =>
    simp only [nodes, List.map_cons] at ihl ihr
    simp [nodes, beneath, ids, id, ← ihl, ← ihr]

theorem length_occurrences_pos (r : Relation) : 0 < r.occurrences.length :=
  List.length_pos_iff.2 r.occurrences_ne_nil

theorem node_mem_of_sites {r : Relation} {role : Role} {n : Nat} {s : Site}
    (h : s ∈ r.sites role n) : s.node ∈ r.nodes := by
  induction r generalizing role n s with
  | table => simp [sites] at h
  | aliased id inner ih =>
    obtain ⟨s₁, hs, rfl⟩ := List.mem_map.1 h
    have hnode := ih hs
    exact List.mem_cons_of_mem _ hnode
  | selection id inner predicate ih =>
    cases List.mem_append.1 h with
    | inl h => exact List.mem_cons_of_mem _ (ih h)
    | inr h =>
      rw [List.mem_singleton.1 h]
      exact List.mem_cons_self
  | join id kind left right predicate ihl ihr =>
    simp only [sites, List.mem_append, List.mem_singleton] at h
    rcases h with (h | h) | rfl
    · exact List.mem_cons_of_mem _ (List.mem_append_left _ (ihl h))
    · exact List.mem_cons_of_mem _ (List.mem_append_right _ (ihr h))
    · exact List.mem_cons_self

theorem map_toPlaced_sites (r : Relation) (role : Role) (n : Nat) :
    (r.sites role n).map Site.toPlaced = r.placed := by
  induction r generalizing role n with
  | table => rfl
  | aliased id inner ih => simp [sites, placed, ← ih role n, Function.comp_def]
  | selection id inner predicate ih => simp [sites, placed, ih]
  | join id kind left right predicate ihl ihr => simp [sites, placed, ihl, ihr]

end Relation

end RelationalSelect
