import RelationalSelect.Proofs.Built
import RelationalSelect.Proofs.Resolution
import RelationalSelect.Proofs.SelectList

set_option autoImplicit false

namespace RelationalSelect

namespace Relation

def declared : Relation → Option (List String)
  | .table _ _ columns => some columns
  | .aliased _ _ | .selection _ _ _ | .join _ _ _ _ _ => none

theorem columns_eq_flatten (r : Relation) : r.columns = (r.nodes.filterMap declared).flatten := by
  induction r with
  | table _ _ columns => exact (List.append_nil columns).symm
  | aliased _ _ ih | selection _ _ _ ih => exact ih
  | join id kind left right predicate ihl ihr =>
    have hnodes : (join id kind left right predicate).nodes.filterMap declared =
        left.nodes.filterMap declared ++ right.nodes.filterMap declared := by
      change (left.nodes ++ right.nodes).filterMap declared = _
      exact List.filterMap_append
    rw [hnodes, List.flatten_append, ← ihl, ← ihr]
    rfl

theorem columns_subset {r n : Relation} (h : n ∈ r.nodes) : n.columns ⊆ r.columns := by
  induction r with
  | table =>
    rw [List.mem_singleton.1 h]
    exact List.Subset.refl _
  | aliased _ _ ih | selection _ _ _ ih =>
    cases List.mem_cons.1 h with
    | inl h => exact h ▸ List.Subset.refl _
    | inr h => exact ih h
  | join _ _ _ _ _ ihl ihr =>
    cases List.mem_cons.1 h with
    | inl h => exact h ▸ List.Subset.refl _
    | inr h =>
      cases List.mem_append.1 h with
      | inl h => exact List.subset_append_of_subset_left _ (ihl h)
      | inr h => exact List.subset_append_of_subset_right _ (ihr h)

theorem mem_attributes_iff {r : Relation} {x : Attribute} : x ∈ r.attributes ↔
    ∃ o ∈ r.occurrences, o.id = x.owner ∧ o.hasColumn x.name = true := by
  rw [attributes_eq_flatMap, List.mem_flatMap]
  refine exists_congr fun o => and_congr_right fun ho => ?_
  rw [attributes_of_occurrence ho, List.mem_map, hasColumn_iff]
  constructor
  · rintro ⟨name, hname, rfl⟩
    exact ⟨rfl, hname⟩
  · rintro ⟨hid, hname⟩
    exact ⟨x.name, hname, by rw [hid]⟩

theorem find?_map_mk (id : Identity) (columns : List String) (name : String) :
    (columns.map (Attribute.mk id)).find? (·.name == name) =
      if name ∈ columns then some ⟨id, name⟩ else none := by
  induction columns with
  | nil => rfl
  | cons column columns ih =>
    rw [List.map_cons, List.find?_cons, ih]
    by_cases h : column = name
    · simp [h]
    · simp [beq_eq_false_iff_ne.2 h, Ne.symm h]

theorem find?_attributes_of_occurrence {r o : Relation} (ho : o ∈ r.occurrences) (name : String) :
    o.attributes.find? (·.name == name) =
      (Option.guard (hasColumn name) o).map (⟨·.id, name⟩) := by
  rw [attributes_of_occurrence ho, find?_map_mk]
  unfold Option.guard
  simp only [← hasColumn_iff]
  split <;> rfl

theorem find?_attributes (r : Relation) (name : String) : r.attributes.find? (·.name == name) =
    (r.occurrence? (hasColumn name)).map (⟨·.id, name⟩) := by
  induction r with
  | table id base columns =>
    exact find?_attributes_of_occurrence (r := .table id base columns)
      (List.mem_singleton_self _) name
  | aliased id inner =>
    exact find?_attributes_of_occurrence (r := .aliased id inner) (List.mem_singleton_self _) name
  | selection _ _ _ ih => exact ih
  | join _ _ _ _ _ ihl ihr => simp [attributes, occurrence?, ihl, ihr, Option.map_or]

theorem attributeNamed_eq (r : Relation) (name : String) :
    r.attributeNamed name = match r.attributes.find? (·.name == name) with
      | some x => .ok x
      | none => .error (.unknownAttribute name) := by
  rw [find?_attributes, attributeNamed]
  cases r.occurrence? (hasColumn name) <;> rfl

theorem attributeNamed_eq_ok_iff {r : Relation} {name : String} {x : Attribute} :
    r.attributeNamed name = .ok x ↔ r.attributes.find? (·.name == name) = some x := by
  rw [attributeNamed_eq]
  cases r.attributes.find? (·.name == name) with
  | none => exact ⟨nofun, nofun⟩
  | some y =>
    exact ⟨fun h => congrArg some (Except.ok.inj h), fun h => congrArg _ (Option.some.inj h)⟩

/-- A name is looked up in the list of attributes, and the first one found is the answer. The list
has the columns that the tables declare, from left to right. -/
theorem attributeNamed_eq_first (r : Relation) :
    (∀ name, ((∃ x, r.attributeNamed name = .ok x) ↔ ∃ x ∈ r.attributes, x.name = name) ∧
      r.attributeNamed name = match r.attributes.find? (·.name == name) with
        | some x => .ok x
        | none => .error (.unknownAttribute name)) ∧
    r.attributes.map Attribute.name = (r.nodes.filterMap declared).flatten := by
  refine ⟨fun name => ⟨?_, attributeNamed_eq r name⟩,
    (map_name_attributes r).trans (columns_eq_flatten r)⟩
  simp only [attributeNamed_eq_ok_iff]
  rw [← Option.isSome_iff_exists, List.find?_isSome]
  simp only [beq_iff_eq]

theorem Obtained.exists_column {family : Relation → Prop} {x : Attribute}
    (h : Obtained family x) : ∃ r n, family r ∧ n ∈ r.nodes ∧ n.ownsAttributes = true ∧
      n.id = x.owner ∧ n.hasColumn x.name = true := by
  have howner : ∃ r, family r ∧ ∃ o ∈ r.occurrences, o.id = x.owner ∧
      o.hasColumn x.name = true := by
    cases h with
    | listed member mem => exact ⟨_, member, mem_attributes_iff.1 mem⟩
    | named member found =>
      have hfirst := attributeNamed_eq_ok_iff.1 found
      exact ⟨_, member, mem_attributes_iff.1 (List.mem_of_find?_eq_some hfirst)⟩
    | @resolved r _ _ member _ found =>
      obtain ⟨o, ho, hcolumn, rfl⟩ := resolve_eq_some_iff.1 found
      exact ⟨r, member, o, carrier_mem ho, rfl, hcolumn⟩
  obtain ⟨r, hr, o, ho, hid, hcolumn⟩ := howner
  exact ⟨r, o, hr, mem_nodes_of_mem_occurrences ho, ownsAttributes_of_mem_occurrences ho, hid,
    hcolumn⟩

theorem resolve_of_mem_attributes {r : Relation}
    (coherent : ∀ m ∈ r.nodes, ∀ n ∈ r.nodes, m.id = n.id → m = n) {x : Attribute}
    (h : x ∈ r.attributes) : r.resolve x = some x := by
  obtain ⟨o, ho, hid, hcolumn⟩ := mem_attributes_iff.1 h
  have howner : x.owner ∈ o.ids := hid ▸ o.id_mem_ids
  obtain ⟨first, hfirst⟩ := Option.isSome_iff_exists.1 (List.find?_isSome.2 ⟨o, ho, by simp [hid]⟩ :
    (r.occurrences.find? (·.id == x.owner)).isSome = true)
  have hsame : first.id = x.owner := by simpa using List.find?_some hfirst
  -- the first occurrence with the identity of the owner is the owner
  obtain rfl : first = o := coherent first
    (mem_nodes_of_mem_occurrences (List.mem_of_find?_eq_some hfirst)) o
    (mem_nodes_of_mem_occurrences ho) (hsame.trans hid.symm)
  refine resolve_eq_some_iff.2 ⟨first, ?_, hcolumn, by rw [hid]⟩
  rw [carrier, hfirst, Option.some_or]

theorem Obtained.exists_resolve {family : Relation → Prop} (coherent : Coherent family)
    {r : Relation} (member : family r) {x : Attribute} (h : Obtained family x)
    (known : x.owner ∈ r.ids) : ∃ b, r.resolve x = some b := by
  obtain ⟨s, owner, hs, howner, -, hid, hcolumn⟩ := h.exists_column
  obtain ⟨o, ho⟩ := exists_carrier (h.exists_occurrence coherent member known)
  have hmem := mem_ids_of_carrier ho
  rw [← map_id_nodes] at hmem
  obtain ⟨n, hn, hnid⟩ := List.mem_map.1 hmem
  have hnr : n ∈ r.nodes := nodes_subset (mem_nodes_of_mem_occurrences (carrier_mem ho)) hn
  obtain rfl : n = owner := coherent r s member hs n hnr owner howner (hnid.trans hid.symm)
  have hcolumns := columns_subset hn ((hasColumn_iff _ _).1 hcolumn)
  exact ⟨_, resolve_eq_some_iff.2 ⟨o, ho, (hasColumn_iff _ _).2 hcolumns, rfl⟩⟩

/-- An attribute is bound exactly if its owner is part of the relation, and then to an attribute of
its list. The attributes of the list are bound to themselves. -/
theorem resolve_of_obtained {family : Relation → Prop} (coherent : Coherent family) {r : Relation}
    (member : family r) {x : Attribute} (obtained : Obtained family x) :
    ((r.resolve x).isSome = true ↔ r.contains x.owner = true) ∧
      (∀ b, r.resolve x = some b →
        b.name = x.name ∧ b ∈ r.attributes ∧ r.resolve b = some b) ∧
      ∀ y ∈ r.attributes, r.resolve y = some y := by
  have hself : ∀ y ∈ r.attributes, r.resolve y = some y := fun y =>
    resolve_of_mem_attributes (coherent r r member member)
  refine ⟨?_, fun b hb => ?_, hself⟩
  · rw [Option.isSome_iff_exists, contains_iff]
    constructor
    · rintro ⟨b, hb⟩
      obtain ⟨o, ho, -, -⟩ := resolve_eq_some_iff.1 hb
      exact ids_subset_of_mem_occurrences (carrier_mem ho) (mem_ids_of_carrier ho)
    · exact obtained.exists_resolve coherent member
  · obtain ⟨o, ho, hcolumn, rfl⟩ := resolve_eq_some_iff.1 hb
    have hmem : (⟨o.id, x.name⟩ : Attribute) ∈ r.attributes :=
      mem_attributes_iff.2 ⟨o, carrier_mem ho, rfl, hcolumn⟩
    exact ⟨rfl, hmem, hself _ hmem⟩

/-- Photos joined with an alias of some users, and an alias around the join. -/
def tagged : Relation :=
  let kept := Relation.selection ⟨1⟩ (.table ⟨0⟩ "users" ["id", "name"])
    (.binary .lt (.ref ⟨⟨0⟩, "id"⟩) (.literal (.integer 9)))
  .aliased ⟨5⟩ (.join ⟨4⟩ .inner (.table ⟨3⟩ "photos" ["user", "name"]) (.aliased ⟨2⟩ kept)
    (.binary .eq (.ref ⟨⟨3⟩, "user"⟩) (.ref ⟨⟨2⟩, "id"⟩)))

theorem built_tagged : Built tagged.nodes ⟨6⟩ := by
  have users : Built (tagged.nodes.drop 5) ⟨1⟩ :=
    .next (.none {}) (.newTable "users" ["id", "name"])
  have kept : Built (tagged.nodes.drop 4) ⟨2⟩ := .next users (.select List.mem_cons_self _)
  have person : Built (tagged.nodes.drop 3) ⟨3⟩ := .next kept (.asAlias List.mem_cons_self)
  have photos : Built (tagged.nodes.drop 2) ⟨4⟩ :=
    .next person (.newTable "photos" ["user", "name"])
  have shown : Built (tagged.nodes.drop 1) ⟨5⟩ :=
    .next photos (.joinOn .inner List.mem_cons_self (List.mem_cons_of_mem _ List.mem_cons_self) _)
  exact .next shown (.asAlias List.mem_cons_self)

theorem resolve_tagged : let x : Attribute := ⟨⟨2⟩, "name"⟩
    Coherent (· ∈ tagged.nodes) ∧ tagged ∈ tagged.nodes ∧ Obtained (· ∈ tagged.nodes) x ∧
    ((tagged.resolve x).isSome = true ↔ tagged.contains x.owner = true) ∧
    (∀ b, tagged.resolve x = some b →
      b.name = x.name ∧ b ∈ tagged.attributes ∧ tagged.resolve b = some b) ∧
    (∀ y ∈ tagged.attributes, tagged.resolve y = some y) ∧
    tagged.resolve x = some ⟨⟨5⟩, "name"⟩ := by
  intro x
  have hcoherent := built_tagged.coherent
  have hobtained : Obtained (· ∈ tagged.nodes) x := by
    have hfound : (Relation.table ⟨0⟩ "users" ["id", "name"]).attributeNamed "name" =
        .ok ⟨⟨0⟩, "name"⟩ := by rfl
    have hnamed : Obtained (· ∈ tagged.nodes) ⟨⟨0⟩, "name"⟩ := .named (by decide) hfound
    exact .resolved (List.mem_cons_of_mem _ List.mem_cons_self) hnamed (by decide)
  obtain ⟨hsome, hbound, hlisted⟩ := resolve_of_obtained hcoherent List.mem_cons_self hobtained
  exact ⟨hcoherent, List.mem_cons_self, hobtained, hsome, hbound, hlisted, by decide⟩

end Relation

end RelationalSelect
