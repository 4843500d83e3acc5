import RelationalSelect.Proofs.Sites

/-!
Who owns an attribute.

Attributes are listed by a relation, asked for by name, or bound anew to one of its occurrences. So
a table or an alias owns them, never a selection or a join. Where an identity stands for one node,
an owner that stands anywhere in a tree is an occurrence or stands inside one. The identities of
tables, aliases and owners are all that flattening looks up.
-/

set_option autoImplicit false

namespace RelationalSelect

namespace Relation

def ownsAttributes : Relation → Bool
  | .table _ _ _ | .aliased _ _ => true
  | .selection _ _ _ | .join _ _ _ _ _ => false

/-- An identity stands for the same node in all trees of a family. -/
def Coherent (family : Relation → Prop) : Prop :=
  ∀ r s, family r → family s → ∀ m ∈ r.nodes, ∀ n ∈ s.nodes, m.id = n.id → m = n

theorem nodes_subset {r n : Relation} (h : n ∈ r.nodes) : n.nodes ⊆ r.nodes := by
  induction r with
  | table =>
    rw [List.mem_singleton.1 h]
    exact List.Subset.refl _
  | aliased _ _ ih | selection _ _ _ ih =>
    cases List.mem_cons.1 h with
    | inl h => exact h ▸ List.Subset.refl _
    | inr h => exact List.subset_cons_of_subset _ (ih h)
  | join _ _ _ _ _ ihl ihr =>
    cases List.mem_cons.1 h with
    | inl h => exact h ▸ List.Subset.refl _
    | inr h =>
      apply List.subset_cons_of_subset
      cases List.mem_append.1 h with
      | inl h => exact List.subset_append_of_subset_left _ (ihl h)
      | inr h => exact List.subset_append_of_subset_right _ (ihr h)

theorem coherent_nodes {root : Relation}
    (h : ∀ m ∈ root.nodes, ∀ n ∈ root.nodes, m.id = n.id → m = n) : Coherent (· ∈ root.nodes) :=
  fun _ _ hr hs m hm n hn => h m (nodes_subset hr hm) n (nodes_subset hs hn)

/-- An attribute that the relations of a family give out. -/
inductive Obtained (family : Relation → Prop) : Attribute → Prop
  | listed {r : Relation} {x : Attribute} (member : family r) (mem : x ∈ r.attributes) :
      Obtained family x
  | named {r : Relation} {name : String} {x : Attribute} (member : family r)
      (found : r.attributeNamed name = .ok x) : Obtained family x
  | resolved {r : Relation} {x y : Attribute} (member : family r) (obtained : Obtained family x)
      (found : r.resolve x = some y) : Obtained family y

theorem mem_nodes_of_mem_occurrences {r o : Relation} (h : o ∈ r.occurrences) : o ∈ r.nodes := by
  induction r with
  | table | aliased =>
    rw [List.mem_singleton.1 h]
    exact List.mem_cons_self
  | selection _ _ _ ih => exact List.mem_cons_of_mem _ (ih h)
  | join _ _ _ _ _ ihl ihr =>
    cases List.mem_append.1 h with
    | inl h => exact List.mem_cons_of_mem _ (List.mem_append_left _ (ihl h))
    | inr h => exact List.mem_cons_of_mem _ (List.mem_append_right _ (ihr h))

theorem ownsAttributes_of_mem_occurrences {r o : Relation} (h : o ∈ r.occurrences) :
    o.ownsAttributes = true := by
  rcases occurrence_cases h with ⟨_, _, _, rfl⟩ | ⟨_, _, rfl⟩ <;> rfl

theorem ids_subset_of_mem_occurrences {r o : Relation} (h : o ∈ r.occurrences) : o.ids ⊆ r.ids := by
  induction r with
  | table | aliased =>
    rw [List.mem_singleton.1 h]
    exact List.Subset.refl _
  | selection _ _ _ ih => exact List.subset_cons_of_subset _ (ih h)
  | join _ _ _ _ _ ihl ihr =>
    apply List.subset_cons_of_subset
    cases List.mem_append.1 h with
    | inl h => exact List.subset_append_of_subset_left _ (ihl h)
    | inr h => exact List.subset_append_of_subset_right _ (ihr h)

theorem owner_of_mem_attributes {r : Relation} {x : Attribute} (h : x ∈ r.attributes) :
    ∃ o ∈ r.occurrences, o.id = x.owner := by
  induction r generalizing x with
  | table =>
    obtain ⟨_, -, rfl⟩ := List.mem_map.1 h
    exact ⟨_, List.mem_singleton_self _, rfl⟩
  | aliased =>
    obtain ⟨_, -, rfl⟩ := List.mem_map.1 h
    exact ⟨_, List.mem_singleton_self _, rfl⟩
  | selection _ _ _ ih => exact ih h
  | join _ _ _ _ _ ihl ihr =>
    cases List.mem_append.1 h with
    | inl h =>
      obtain ⟨o, ho, hid⟩ := ihl h
      exact ⟨o, List.mem_append_left _ ho, hid⟩
    | inr h =>
      obtain ⟨o, ho, hid⟩ := ihr h
      exact ⟨o, List.mem_append_right _ ho, hid⟩

theorem owner_mem_ids {r : Relation} {x : Attribute} (h : x ∈ r.attributes) : x.owner ∈ r.ids := by
  obtain ⟨o, ho, hid⟩ := owner_of_mem_attributes h
  exact ids_subset_of_mem_occurrences ho (hid ▸ o.id_mem_ids)

theorem owner_of_attributeNamed {r : Relation} {name : String} {x : Attribute}
    (h : r.attributeNamed name = .ok x) : ∃ o ∈ r.occurrences, o.id = x.owner := by
  unfold attributeNamed at h
  rw [occurrence?_eq_find?] at h
  split at h
  · next o ho =>
    cases h
    exact ⟨o, List.mem_of_find?_eq_some ho, rfl⟩
  · contradiction

theorem owner_of_resolve {r : Relation} {x y : Attribute} (h : r.resolve x = some y) :
    ∃ o ∈ r.occurrences, o.id = y.owner := by
  obtain ⟨o, ho, h⟩ := Option.bind_eq_some_iff.1 h
  split at h
  · cases h
    rw [occurrence?_eq_find?, occurrence?_eq_find?] at ho
    exact ⟨o, carrier_mem (x := x.owner) (by simpa [carrier] using ho), rfl⟩
  · contradiction

theorem Obtained.exists_owner {family : Relation → Prop} {x : Attribute} (h : Obtained family x) :
    ∃ r n, family r ∧ n ∈ r.nodes ∧ n.ownsAttributes = true ∧ n.id = x.owner := by
  have howner : ∃ r, family r ∧ ∃ o ∈ r.occurrences, o.id = x.owner := by
    cases h with
    | listed member mem => exact ⟨_, member, owner_of_mem_attributes mem⟩
    | named member found => exact ⟨_, member, owner_of_attributeNamed found⟩
    | resolved member _ found => exact ⟨_, member, owner_of_resolve found⟩
  obtain ⟨r, hr, o, ho, hid⟩ := howner
  exact ⟨r, o, hr, mem_nodes_of_mem_occurrences ho, ownsAttributes_of_mem_occurrences ho, hid⟩

theorem obtained_of_listed {r : Relation}
    (h : ∀ p ∈ r.placed, ∀ x ∈ p.predicate.refs, ∃ n ∈ r.nodes, x ∈ n.attributes) :
    ∀ p ∈ r.placed, ∀ x ∈ p.predicate.refs, Obtained (· ∈ r.nodes) x := by
  intro p hp x hx
  obtain ⟨n, hn, hmem⟩ := h p hp x hx
  exact .listed hn hmem

theorem exists_occurrence_of_node {r n : Relation} (h : n ∈ r.nodes)
    (owns : n.ownsAttributes = true) : ∃ o ∈ r.occurrences, n.id ∈ o.ids := by
  have hids : ∀ s : Relation, n ∈ s.nodes → n.id ∈ s.ids := fun s hs =>
    s.map_id_nodes ▸ List.mem_map_of_mem hs
  induction r with
  | table | aliased => exact ⟨_, List.mem_singleton_self _, hids _ h⟩
  | selection _ _ _ ih =>
    cases List.mem_cons.1 h with
    | inl h => simp [h, ownsAttributes] at owns
    | inr h => exact ih h
  | join _ _ left right _ ihl ihr =>
    have hcases : n ∈ left.nodes ∨ n ∈ right.nodes := by
      cases List.mem_cons.1 h with
      | inl h => simp [h, ownsAttributes] at owns
      | inr h => exact List.mem_append.1 h
    cases hcases with
    | inl h =>
      obtain ⟨o, ho, hn⟩ := ihl h
      exact ⟨o, List.mem_append_left _ ho, hn⟩
    | inr h =>
      obtain ⟨o, ho, hn⟩ := ihr h
      exact ⟨o, List.mem_append_right _ ho, hn⟩

theorem Obtained.exists_occurrence {family : Relation → Prop} (coherent : Coherent family)
    {root : Relation} (member : family root) {x : Attribute} (h : Obtained family x)
    (known : x.owner ∈ root.ids) : ∃ o ∈ root.occurrences, x.owner ∈ o.ids := by
  obtain ⟨r, n, hr, hn, owns, hid⟩ := h.exists_owner
  rw [← map_id_nodes] at known
  obtain ⟨m, hm, hmx⟩ := List.mem_map.1 known
  obtain rfl := coherent root r member hr m hm n hn (hmx.trans hid.symm)
  exact hid ▸ exists_occurrence_of_node hm owns

theorem exists_carrier {root : Relation} {x : Identity} (h : ∃ o ∈ root.occurrences, x ∈ o.ids) :
    ∃ o, root.carrier x = some o := by
  obtain ⟨o, ho, hx⟩ := h
  have hfound : (root.occurrences.find? (contains x)).isSome = true :=
    List.find?_isSome.2 ⟨o, ho, (contains_iff x o).2 hx⟩
  refine Option.isSome_iff_exists.1 ?_
  unfold carrier
  rw [Option.isSome_or, hfound, Bool.or_true]

theorem mem_ids_of_carrier {root o : Relation} {x : Identity} (h : root.carrier x = some o) :
    x ∈ o.ids := by
  rcases Option.or_eq_some_iff.1 h with h | ⟨-, h⟩
  · have hid : o.id = x := by simpa using List.find?_some h
    exact hid ▸ o.id_mem_ids
  · exact (contains_iff x o).1 (List.find?_some h)

theorem carrierWithin_mem {root o : Relation} {outermost : Option Relation}
    (houter : ∀ a, outermost = some a → a ∈ root.occurrences) {x : Identity}
    (h : root.carrierWithin outermost x = some o) : o ∈ root.occurrences ∧ x ∈ o.ids := by
  cases outermost with
  | none => exact ⟨carrier_mem h, mem_ids_of_carrier h⟩
  | some a =>
    simp only [carrierWithin] at h
    split at h
    · next hx =>
      cases h
      exact ⟨houter o rfl, (contains_iff x o).1 hx⟩
    · exact ⟨carrier_mem h, mem_ids_of_carrier h⟩

theorem exists_carrierWithin {root : Relation} (outermost : Option Relation) {x : Identity}
    (h : ∃ o ∈ root.occurrences, x ∈ o.ids) : ∃ o, root.carrierWithin outermost x = some o := by
  cases outermost with
  | none => exact exists_carrier h
  | some a =>
    simp only [carrierWithin]
    split
    · exact ⟨a, rfl⟩
    · exact exists_carrier h

/-- The identities whose names flattening looks up. -/
def sought : Relation → List Identity
  | .table id _ _ => [id]
  | .aliased id inner => id :: inner.sought
  | .selection _ inner p => inner.sought ++ p.refs.map Attribute.owner
  | .join _ _ left right p => left.sought ++ right.sought ++ p.refs.map Attribute.owner

theorem forall_sought {P : Identity → Prop} {r : Relation}
    (hnodes : ∀ n ∈ r.nodes, n.ownsAttributes = true → P n.id)
    (hplaced : ∀ p ∈ r.placed, ∀ a ∈ p.predicate.refs, P a.owner) : ∀ x ∈ r.sought, P x := by
  have howners : ∀ p : Predicate, (∀ a ∈ p.refs, P a.owner) →
      ∀ x ∈ p.refs.map Attribute.owner, P x := fun p h => List.forall_mem_map.2 h
  induction r with
  | table => exact List.forall_mem_singleton.2 (hnodes _ List.mem_cons_self rfl)
  | aliased id inner ih =>
    refine List.forall_mem_cons.2 ⟨hnodes _ List.mem_cons_self rfl, ih ?_ ?_⟩
    · exact fun n hn => hnodes n (List.mem_cons_of_mem _ hn)
    · exact fun p hp => hplaced ⟨p.around ++ [.aliased id inner], p.predicate⟩
        (List.mem_map_of_mem hp)
  | selection _ _ p ih =>
    rw [placed, List.forall_mem_append, List.forall_mem_singleton] at hplaced
    refine List.forall_mem_append.2 ⟨ih ?_ hplaced.1, howners p hplaced.2⟩
    exact fun n hn => hnodes n (List.mem_cons_of_mem _ hn)
  | join _ _ _ _ p ihl ihr =>
    rw [placed, List.forall_mem_append, List.forall_mem_append,
      List.forall_mem_singleton] at hplaced
    refine List.forall_mem_append.2 ⟨List.forall_mem_append.2 ⟨ihl ?_ hplaced.1.1,
      ihr ?_ hplaced.1.2⟩, howners p hplaced.2⟩
    · exact fun n hn => hnodes n (List.mem_cons_of_mem _ (List.mem_append_left _ hn))
    · exact fun n hn => hnodes n (List.mem_cons_of_mem _ (List.mem_append_right _ hn))

theorem id_mem_sought {r o : Relation} (h : o ∈ r.occurrences) : o.id ∈ r.sought := by
  induction r with
  | table | aliased =>
    rw [List.mem_singleton.1 h]
    exact List.mem_cons_self
  | selection _ _ _ ih => exact List.mem_append_left _ (ih h)
  | join _ _ _ _ _ ihl ihr =>
    apply List.mem_append_left
    cases List.mem_append.1 h with
    | inl h => exact List.mem_append_left _ (ihl h)
    | inr h => exact List.mem_append_right _ (ihr h)

end Relation

end RelationalSelect
