import Mathlib.Data.List.Count
import RelationalSelect.Proofs.InTime

set_option autoImplicit false

namespace RelationalSelect

namespace Relation

def baseTable : Relation → Option Relation
  | .table id name columns => some (.table id name columns)
  | .aliased _ inner | .selection _ inner _ => inner.baseTable
  | .join .. => none

theorem baseTable_of_baseName {r : Relation} {base : String} (h : r.baseName = .ok base) :
    ∃ id, r.baseTable = some (.table id base r.columns) := by
  induction r with
  | table id =>
    cases h
    exact ⟨id, rfl⟩
  | aliased _ _ ih | selection _ _ _ ih => exact ih h
  | join => contradiction

theorem attributes_eq_flatMap (r : Relation) :
    r.attributes = r.occurrences.flatMap attributes := by
  induction r with
  | table | aliased => simp [occurrences]
  | selection _ _ _ ih => exact ih
  | join _ _ _ _ _ ihl ihr => simp [attributes, occurrences, ihl, ihr]

theorem attributes_of_occurrence {r o : Relation} (h : o ∈ r.occurrences) :
    o.attributes = o.columns.map (⟨o.id, ·⟩) := by
  rcases occurrence_cases h with ⟨id, name, columns, rfl⟩ | ⟨id, inner, rfl⟩
  · rfl
  · simp [attributes, columns, Relation.id, ← map_name_attributes, Function.comp_def]

def joinNodes : Relation → List Relation
  | .table _ _ _ => []
  | .aliased _ inner | .selection _ inner _ => inner.joinNodes
  | .join id kind left right predicate =>
      .join id kind left right predicate :: (left.joinNodes ++ right.joinNodes)

theorem length_joinNodes (r : Relation) : r.joinNodes.length = r.joinKinds.length := by
  induction r with
  | table => rfl
  | aliased _ _ ih | selection _ _ _ ih => exact ih
  | join _ _ _ _ _ ihl ihr =>
    simp only [joinNodes, joinKinds, List.length_cons, List.length_append, ihl, ihr]
    omega

theorem joinNodes_eq_nil {r : Relation} (single : r.joinKinds = []) : r.joinNodes = [] := by
  rw [← List.length_eq_zero_iff, length_joinNodes, single, List.length_nil]

theorem occurrences_subset_of_joinNode {r n : Relation}
    (single : ∀ o ∈ r.occurrences, o.joinKinds = []) (h : n ∈ r.joinNodes) :
    n.occurrences ⊆ r.occurrences := by
  induction r with
  | table => simp [joinNodes] at h
  | aliased id inner =>
    rw [joinNodes_eq_nil (single _ (List.mem_singleton_self _))] at h
    contradiction
  | selection _ _ _ ih => exact ih single h
  | join id kind left right predicate ihl ihr =>
    cases List.mem_cons.1 h with
    | inl h => exact h ▸ List.Subset.refl _
    | inr h =>
      cases List.mem_append.1 h with
      | inl h =>
        have hsub := ihl (fun o ho => single o (List.mem_append_left _ ho)) h
        exact List.subset_append_of_subset_left _ hsub
      | inr h =>
        have hsub := ihr (fun o ho => single o (List.mem_append_right _ ho)) h
        exact List.subset_append_of_subset_right _ hsub

theorem nodup_joinNodes {r : Relation} (distinct : (r.occurrences.map id).Nodup)
    (single : ∀ o ∈ r.occurrences, o.joinKinds = []) : r.joinNodes.Nodup := by
  induction r with
  | table => exact List.nodup_nil
  | aliased id inner =>
    rw [joinNodes_eq_nil (single _ (List.mem_singleton_self _))]
    exact List.nodup_nil
  | selection _ _ _ ih => exact ih distinct single
  | join id kind left right predicate ihl ihr =>
    have singleLeft : ∀ o ∈ left.occurrences, o.joinKinds = [] :=
      fun o ho => single o (List.mem_append_left _ ho)
    have singleRight : ∀ o ∈ right.occurrences, o.joinKinds = [] :=
      fun o ho => single o (List.mem_append_right _ ho)
    have hoccurrences : (Relation.join id kind left right predicate).occurrences =
      left.occurrences ++ right.occurrences := rfl
    rw [hoccurrences, List.map_append, List.nodup_append] at distinct
    obtain ⟨distinctLeft, distinctRight, hdisjoint⟩ := distinct
    have hapart : ∀ o ∈ left.occurrences, o ∉ right.occurrences := fun o hl hr =>
      hdisjoint _ (List.mem_map_of_mem hl) _ (List.mem_map_of_mem hr) rfl
    obtain ⟨l, hl⟩ := List.exists_mem_of_ne_nil _ left.occurrences_ne_nil
    obtain ⟨m, hm⟩ := List.exists_mem_of_ne_nil _ right.occurrences_ne_nil
    -- a join that stands on both sides would bring an occurrence of one side to the other
    refine List.nodup_cons.2 ⟨fun h => ?_, List.nodup_append.2 ⟨ihl distinctLeft singleLeft,
      ihr distinctRight singleRight, ?_⟩⟩
    · cases List.mem_append.1 h with
      | inl h =>
        have hsub := occurrences_subset_of_joinNode singleLeft h
        exact hapart m (hsub (List.mem_append_right _ hm)) hm
      | inr h =>
        have hsub := occurrences_subset_of_joinNode singleRight h
        exact hapart l hl (hsub (List.mem_append_left _ hl))
    · rintro n hnl _ hnr rfl
      obtain ⟨o, ho⟩ := List.exists_mem_of_ne_nil _ n.occurrences_ne_nil
      exact hapart o (occurrences_subset_of_joinNode singleLeft hnl ho)
        (occurrences_subset_of_joinNode singleRight hnr ho)

end Relation

theorem forall₂_zip_map {α β γ : Type} {R : α → β → Prop} {S : α → β × γ → Prop} {g : α → γ}
    (hg : ∀ a b, R a b → S a (b, g a)) {l : List α} {m : List β} (h : List.Forall₂ R l m) :
    List.Forall₂ S l (m.zip (l.map g)) := by
  induction h with
  | nil => exact .nil
  | cons hab _ ih => exact .cons (hg _ _ hab) ih

namespace Query

/-- An occurrence with its source and the columns that it adds to the list. -/
structure Represents (names : Naming) (o : Relation) (s : Source) (block : List Column) : Prop where
  base : ∃ id columns, o.baseTable = some (.table id s.table columns) ∧
    block = columns.map (⟨s.name, ·⟩)
  named : names.nameOf o.id = some s.name
  renamed : s.asName = if s.name = s.table then none else some s.name

structure LinesUp (root : Relation) (q : Query) (names : Naming) (blocks : List (List Column)) :
    Prop where
  represented : List.Forall₂ (fun o e => Represents names o e.1 e.2) root.occurrences
    (q.sources.zip blocks)
  length_blocks : blocks.length = q.sources.length
  columns_eq : q.columns = blocks.flatten
  length_joins : q.joins.length = root.joinNodes.length
  joins_once : root.joinNodes.Nodup
  names_once : (q.sources.map Source.name).Nodup
  qualified : ∀ c ∈ q.conjuncts, ∀ col ∈ c.refs, q.sources.countP (·.name == col.table) = 1

variable {root : Relation} {q : Query} {names : Naming} {chain : Chain}

def block (names : Naming) (o : Relation) : List Column := o.columns.map (⟨names.key o.id, ·⟩)

theorem map_attributes_of_occurrence {o : Relation} (ho : o ∈ root.occurrences) :
    o.attributes.map (fun x => Column.mk (names.key x.owner) x.name) = block names o := by
  rw [Relation.attributes_of_occurrence ho, List.map_map]
  rfl

theorem Compiled.columns_eq (h : Compiled root q names chain) :
    q.columns = (root.occurrences.map (block names)).flatten := by
  have hcolumn : ∀ x col, names.outside.column x = .ok col → x ∈ root.attributes →
      Column.mk (names.key x.owner) x.name = col := by
    intro x col hx hmem
    obtain ⟨htable, hname⟩ := View.column_eq_ok hx
    obtain ⟨o, ho, hid⟩ := Relation.owner_of_mem_attributes hmem
    rw [← hid, h.listed.outside_of_mem ho] at htable
    rw [← hid, Naming.key_of_nameOf htable, ← hname]
  have hmem := (List.forall₂_and_left _ _).2 ⟨fun _ hx => hx, forall₂_of_mapM h.columns⟩
  have hmap := map_eq_map_of_forall₂ (g := fun col => col)
    (fun x col ⟨hx, hc⟩ => hcolumn x col hc hx) hmem
  rw [List.map_id'] at hmap
  rw [← hmap, Relation.attributes_eq_flatMap, List.map_flatMap, ← List.flatMap_def]
  exact List.flatMap_congr fun o ho => map_attributes_of_occurrence ho

theorem Compiled.countP_name (h : Compiled root q names chain) {c : Condition}
    (hc : c ∈ q.conjuncts) {col : Column} (hcol : col ∈ c.refs) :
    q.sources.countP (·.name == col.table) = 1 := by
  have hmem := (Condition.within_iff c _).1 (h.within_sources hc) _ (List.mem_map_of_mem hcol)
  have hcount := List.count_eq_one_of_mem h.names_nodup hmem
  rwa [List.count, List.countP_map] at hcount

theorem Compiled.linesUp (h : Compiled root q names chain) :
    LinesUp root q names (root.occurrences.map (block names)) := by
  have hlength : root.occurrences.length = q.sources.length := h.sources_listed.length_eq
  constructor
  · refine forall₂_zip_map (fun o s ⟨base, hbase, hname, hs⟩ => ?_) h.sources_listed
    have htable : s.table = base := by rw [hs]; rfl
    obtain ⟨id, hid⟩ := Relation.baseTable_of_baseName hbase
    refine ⟨⟨id, o.columns, htable.symm ▸ hid, ?_⟩, hname, ?_⟩
    · rw [block, Naming.key_of_nameOf hname]
    · rw [htable]
      exact congrArg Source.asName hs
  · rw [List.length_map, hlength]
  · exact h.columns_eq
  · rw [h.joins_eq, Relation.length_joinNodes, ← h.flattens.kinds, List.length_map]
  · refine Relation.nodup_joinNodes h.listed.ids_nodup fun o ho => ?_
    obtain ⟨e, -, he⟩ := h.listed.get?_of_mem ho
    exact o.baseName_ok_iff.1 ⟨_, he.base_eq⟩
  · exact h.names_nodup
  · exact fun c hc col hcol => h.countP_name hc hcol

/-- Each occurrence has its source and its columns in the statement, in the order of FROM, and every
column of a condition belongs to one source. -/
theorem linesUp_of_compile (h : compile root = .ok q) : ∃ names blocks,
    (Naming.assign root).outcome = .ok names ∧ LinesUp root q names blocks := by
  obtain ⟨names, chain, h⟩ := compiled_of_ok h
  exact ⟨names, _, h.assigned, h.linesUp⟩

/-- Users with a column that is declared twice, a table with a name that looks generated, and an
alias of an alias of users. -/
def namesakes : Relation :=
  let users := Relation.table ⟨0⟩ "users" ["id", "id"]
  let other := Relation.table ⟨1⟩ "users_2" ["key"]
  let kept := Relation.selection ⟨2⟩ users
    (.binary .lt (.ref ⟨⟨0⟩, "id"⟩) (.literal (.integer 9)))
  let both := Relation.join ⟨5⟩ .inner users other
    (.binary .eq (.ref ⟨⟨0⟩, "id"⟩) (.ref ⟨⟨1⟩, "key"⟩))
  .join ⟨6⟩ .leftOuter both (.aliased ⟨4⟩ (.aliased ⟨3⟩ kept))
    (.binary .eq (.ref ⟨⟨1⟩, "key"⟩) (.ref ⟨⟨4⟩, "id"⟩))

def namesakesQuery : Query where
  columns := [⟨"users", "id"⟩, ⟨"users", "id"⟩, ⟨"users_2", "key"⟩, ⟨"users_3", "id"⟩,
    ⟨"users_3", "id"⟩]
  source := ⟨"users", none⟩
  joins := [⟨.inner, ⟨"users_2", none⟩,
      [.binary .eq (.ref ⟨"users", "id"⟩) (.ref ⟨"users_2", "key"⟩)]⟩,
    ⟨.leftOuter, ⟨"users", some "users_3"⟩,
      [.binary .eq (.ref ⟨"users_2", "key"⟩) (.ref ⟨"users_3", "id"⟩),
        .binary .lt (.ref ⟨"users_3", "id"⟩) (.literal (.integer 9))]⟩]
  filter := []

theorem linesUp_namesakes : compile namesakes = .ok namesakesQuery ∧ ∃ names blocks,
    (Naming.assign namesakes).outcome = .ok names ∧
      LinesUp namesakes namesakesQuery names blocks := by
  have hq : compile namesakes = .ok namesakesQuery := by rfl
  exact ⟨hq, linesUp_of_compile hq⟩

end Query

end RelationalSelect
