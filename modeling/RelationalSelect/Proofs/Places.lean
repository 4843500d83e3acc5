import RelationalSelect.Relation

set_option autoImplicit false

namespace RelationalSelect

/-- A predicate with the aliases around it, innermost first. -/
structure Placed where
  around : List Relation
  predicate : Predicate

namespace Relation

def placed : Relation → List Placed
  | .table _ _ _ => []
  | .aliased id inner => inner.placed.map fun p => ⟨p.around ++ [.aliased id inner], p.predicate⟩
  | .selection _ inner predicate => inner.placed ++ [⟨[], predicate⟩]
  | .join _ _ left right predicate => left.placed ++ right.placed ++ [⟨[], predicate⟩]

def aliases : Relation → List Relation
  | .table _ _ _ => []
  | .aliased id inner => .aliased id inner :: inner.aliases
  | .selection _ inner _ => inner.aliases
  | .join _ _ left right _ => left.aliases ++ right.aliases

def wrapped : Relation → List Relation
  | .aliased _ inner => inner.aliases
  | _ => []

/-- No alias is an occurrence and also stands inside another occurrence. -/
def AliasesApart (root : Relation) : Prop :=
  ∀ a ∈ root.occurrences, ∀ b ∈ a.wrapped, b.id ∉ root.occurrences.map id

instance (root : Relation) : Decidable root.AliasesApart :=
  inferInstanceAs (Decidable (∀ a ∈ root.occurrences, ∀ b ∈ a.wrapped, b.id ∉ _))

/-- No occurrence also stands inside an occurrence before it. -/
def WrapsNoneLater (root : Relation) : Prop :=
  root.occurrences.Pairwise fun a b => b.id ∉ a.wrapped.map id

/-- The occurrence that a relation is part of: itself, or else the first alias around it. -/
def carrier (root : Relation) (x : Identity) : Option Relation :=
  (root.occurrences.find? (·.id == x)).or (root.occurrences.find? (contains x))

/-- The same for a predicate inside an alias, which takes all that it wraps for itself. -/
def carrierWithin (root : Relation) (outermost : Option Relation) (x : Identity) :
    Option Relation :=
  match outermost with
  | some a => if a.contains x then some a else root.carrier x
  | none => root.carrier x

theorem wrapsNoneLater_of_apart {root : Relation} (apart : root.AliasesApart) :
    root.WrapsNoneLater := by
  apply List.pairwise_of_forall_mem_list
  intro a ha b hb hwrapped
  obtain ⟨d, hd, hid⟩ := List.mem_map.1 hwrapped
  apply apart a ha d hd
  rw [hid]
  exact List.mem_map_of_mem hb

theorem carrier_mem {root o : Relation} {x : Identity} (h : root.carrier x = some o) :
    o ∈ root.occurrences := by
  rcases Option.or_eq_some_iff.1 h with h | ⟨-, h⟩
  · exact List.mem_of_find?_eq_some h
  · exact List.mem_of_find?_eq_some h

theorem occurrence_cases {r o : Relation} (h : o ∈ r.occurrences) :
    (∃ id name columns, o = .table id name columns) ∨ ∃ id inner, o = .aliased id inner := by
  induction r with
  | table => exact .inl ⟨_, _, _, List.mem_singleton.1 h⟩
  | aliased => exact .inr ⟨_, _, List.mem_singleton.1 h⟩
  | selection _ _ _ ih => exact ih h
  | join _ _ _ _ _ ihl ihr => exact (List.mem_append.1 h).elim ihl ihr

theorem occurrences_ne_nil (r : Relation) : r.occurrences ≠ [] := by
  induction r with
  | table | aliased => simp [occurrences]
  | selection _ _ _ ih => simpa [occurrences] using ih
  | join _ _ _ _ _ ihl _ => simp [occurrences, ihl]

theorem mem_aliases_of_around {r b : Relation} {p : Placed} (hp : p ∈ r.placed)
    (hb : b ∈ p.around) : b ∈ r.aliases := by
  induction r generalizing p with
  | table => simp [placed] at hp
  | aliased id inner ih =>
    obtain ⟨p₁, hp₁, rfl⟩ := List.mem_map.1 hp
    cases List.mem_append.1 hb with
    | inl hb => exact List.mem_cons_of_mem _ (ih hp₁ hb)
    | inr hb =>
      rw [List.mem_singleton.1 hb]
      exact List.mem_cons_self
  | selection _ inner predicate ih =>
    cases List.mem_append.1 hp with
    | inl hp => exact ih hp hb
    | inr hp => simp_all
  | join _ _ left right predicate ihl ihr =>
    simp only [placed, List.mem_append, List.mem_singleton] at hp
    rcases hp with (hp | hp) | rfl
    · exact List.mem_append_left _ (ihl hp hb)
    · exact List.mem_append_right _ (ihr hp hb)
    · simp at hb

theorem around_cases {r : Relation} {p : Placed} (hp : p ∈ r.placed) : p.around = [] ∨
    ∃ front a, p.around = front ++ [a] ∧ a ∈ r.occurrences ∧ ∀ b ∈ front, b ∈ a.wrapped := by
  induction r generalizing p with
  | table => simp [placed] at hp
  | aliased id inner =>
    obtain ⟨p₁, hp₁, rfl⟩ := List.mem_map.1 hp
    exact .inr ⟨p₁.around, .aliased id inner, rfl, List.mem_singleton_self _,
      fun b hb => mem_aliases_of_around hp₁ hb⟩
  | selection _ inner predicate ih =>
    cases List.mem_append.1 hp with
    | inl hp => exact ih hp
    | inr hp => exact .inl (by simp_all)
  | join _ _ left right predicate ihl ihr =>
    simp only [placed, List.mem_append, List.mem_singleton] at hp
    rcases hp with (hp | hp) | rfl
    · rcases ihl hp with h | ⟨front, a, h, ha, hw⟩
      · exact .inl h
      · exact .inr ⟨front, a, h, List.mem_append_left _ ha, hw⟩
    · rcases ihr hp with h | ⟨front, a, h, ha, hw⟩
      · exact .inl h
      · exact .inr ⟨front, a, h, List.mem_append_right _ ha, hw⟩
    · exact .inl rfl

end Relation

end RelationalSelect
