import RelationalSelect.Proofs.Alike
import RelationalSelect.Proofs.Nesting
import RelationalSelect.Proofs.Owners
import RelationalSelect.Proofs.Meaning

set_option autoImplicit false

namespace RelationalSelect

namespace Relation

/-- An attribute at a place of a tree is owned by an occurrence, or it is used inside an alias that
is or wraps its owner. -/
def Keeps (root : Relation) (p : Placed) (x : Attribute) : Prop :=
  x.owner ∈ root.occurrences.map id ∨ ∃ a ∈ p.around.getLast?, x.owner ∈ a.ids

instance (root : Relation) (p : Placed) (x : Attribute) : Decidable (root.Keeps p x) :=
  inferInstanceAs (Decidable (_ ∨ ∃ a ∈ p.around.getLast?, x.owner ∈ a.ids))

end Relation

namespace Naming

def Extends (names names₁ : Naming) : Prop := names₁.toList <+: names.toList

variable {names names₁ : Naming}

theorem extends_add {r : Relation} (h : (names₁.add r).outcome = .ok names) :
    names.Extends names₁ := by
  obtain ⟨hfree, base, -, rfl⟩ := add_eq_ok h
  unfold Extends
  rw [Roster.toList_insert_of_get? hfree]
  exact List.prefix_append _ _

theorem extends_foldlM {rs : List Relation}
    (h : (rs.foldlM Naming.add names₁).outcome = .ok names) :
    names.Extends names₁ := by
  induction rs generalizing names₁ with
  | nil =>
    cases h
    exact List.prefix_refl _
  | cons r rs ih =>
    simp only [List.foldlM_cons, Logged.outcome_bind] at h
    obtain ⟨names₂, ha, h⟩ := bind_eq_ok_iff.1 h
    exact (extends_add ha).trans (ih h)

theorem assign_left {id : Identity} {kind : JoinKind} {left right : Relation} {p : Predicate}
    (h : (assign (.join id kind left right p)).outcome = .ok names) :
    ∃ names₁, (assign left).outcome = .ok names₁ ∧ names.Extends names₁ := by
  unfold assign at h
  rw [Relation.forOccurrences_eq_foldlM, Relation.occurrences, List.foldlM_append] at h
  simp only [Logged.outcome_bind] at h
  obtain ⟨names₂, h, hrecord⟩ := bind_eq_ok_iff.1 h
  obtain ⟨names₁, hleft, hright⟩ := bind_eq_ok_iff.1 h
  cases hrecord
  refine ⟨names₁, ?_, extends_foldlM hright⟩
  unfold assign
  rw [Relation.forOccurrences_eq_foldlM, Logged.outcome_bind]
  exact bind_eq_ok_iff.2 ⟨names₁, hleft, rfl⟩

section Kept

variable {root left : Relation} (hn : names.Names root.occurrences)
  (hn₁ : names₁.Names left.occurrences) (extended : names.Extends names₁)
  (hsub : left.occurrences ⊆ root.occurrences)

include hn₁ extended

theorem Names.nameOf_kept {o : Relation} (ho : o ∈ left.occurrences) :
    names₁.nameOf o.id = names.nameOf o.id := by
  obtain ⟨e, he, -⟩ := hn₁.get?_of_mem ho
  have hkept := Roster.get?_eq_some_iff.2 (extended.subset (Roster.get?_eq_some_iff.1 he))
  unfold nameOf
  rw [he, hkept]

include hn hsub

theorem Names.outside_kept {o : Relation} (ho : o ∈ left.occurrences) :
    names₁.outside o.id = names.outside o.id := by
  rw [hn₁.outside_of_mem ho, hn.outside_of_mem (hsub ho), hn₁.nameOf_kept extended ho]

theorem Names.through_kept (apart : root.AliasesApart) (apart₁ : left.AliasesApart) {a : Relation}
    (ha : a ∈ left.occurrences) {front : List Relation} (hfront : ∀ b ∈ front, b ∈ a.wrapped)
    {x : Identity} (hx : x ∈ left.occurrences.map Relation.id ∨ x ∈ a.ids) :
    names₁.through (front ++ [a]) names₁.outside x =
      names.through (front ++ [a]) names.outside x := by
  rw [hn₁.through_wrapped apart₁ ha hfront, hn.through_wrapped apart (hsub ha) hfront]
  unfold Relation.carrierWithin
  by_cases hax : a.contains x = true
  · simp only [hax, if_true, Option.bind_some]
    exact hn₁.nameOf_kept extended ha
  · simp only [hax, Bool.false_eq_true, if_false]
    rw [← hn₁.outside_eq, ← hn.outside_eq]
    have hnot : x ∉ a.ids := fun h => hax ((Relation.contains_iff x a).2 h)
    obtain ⟨o, ho, rfl⟩ := List.mem_map.1 (hx.resolve_right hnot)
    exact hn.outside_kept hn₁ extended hsub ho

end Kept

end Naming

namespace Chain

section Kept

variable {names names₁ : Naming} {root left : Relation} (hn : names.Names root.occurrences)
  (hn₁ : names₁.Names left.occurrences) (extended : names.Extends names₁)
  (hsub : left.occurrences ⊆ root.occurrences) (apart : root.AliasesApart)
  (apart₁ : left.AliasesApart)

include hn hn₁ extended hsub apart apart₁

theorem alike_inside {a : Relation} (ha : a ∈ left.occurrences) {r : Relation}
    {front : List Relation} (hfront : ∀ b ∈ front, b ∈ a.wrapped)
    (haliases : r.aliases ⊆ a.wrapped) (hids : r.ids ⊆ a.ids)
    (hrefs : ∀ p ∈ r.placed, ∀ x ∈ p.predicate.refs,
      x.owner ∈ left.occurrences.map Relation.id ∨ x.owner ∈ a.ids) :
    Alike names₁ names (names₁.through (front ++ [a]) names₁.outside)
      (names.through (front ++ [a]) names.outside) r r := by
  have kept : ∀ {front : List Relation}, (∀ b ∈ front, b ∈ a.wrapped) →
      ∀ x, x ∈ left.occurrences.map Relation.id ∨ x ∈ a.ids →
        names₁.through (front ++ [a]) names₁.outside x =
          names.through (front ++ [a]) names.outside x :=
    fun hfront _ => hn.through_kept hn₁ extended hsub apart apart₁ ha hfront
  induction r generalizing front with
  | table id => exact .table (kept hfront id (.inr (hids List.mem_cons_self)))
  | aliased id inner ih =>
    have hfront₁ : ∀ b ∈ .aliased id inner :: front, b ∈ a.wrapped :=
      List.forall_mem_cons.2 ⟨haliases List.mem_cons_self, hfront⟩
    refine .aliased (kept hfront id (.inr (hids List.mem_cons_self))) (ih hfront₁
      (fun b hb => haliases (List.mem_cons_of_mem _ hb))
      (fun x hx => hids (List.mem_cons_of_mem _ hx)) fun p hp => ?_)
    exact hrefs ⟨p.around ++ [.aliased id inner], p.predicate⟩ (List.mem_map_of_mem hp)
  | selection id inner p ih =>
    have hown := hrefs ⟨[], p⟩ (List.mem_append_right _ (List.mem_singleton_self _))
    have hinner := ih hfront haliases (fun x hx => hids (List.mem_cons_of_mem _ hx))
      fun p hp => hrefs p (List.mem_append_left _ hp)
    exact .selection hinner (View.condition_congr fun x hx => kept hfront x.owner (hown x hx))
  | join id kind l r p ihl ihr =>
    have hown := hrefs ⟨[], p⟩ (List.mem_append_right _ (List.mem_singleton_self _))
    have hleft := ihl hfront (fun b hb => haliases (List.mem_append_left _ hb))
      (fun x hx => hids (List.mem_cons_of_mem _ (List.mem_append_left _ hx)))
      fun p hp => hrefs p (List.mem_append_left _ (List.mem_append_left _ hp))
    have hright := ihr hfront (fun b hb => haliases (List.mem_append_right _ hb))
      (fun x hx => hids (List.mem_cons_of_mem _ (List.mem_append_right _ hx)))
      fun p hp => hrefs p (List.mem_append_left _ (List.mem_append_right _ hp))
    exact .join hleft hright (View.condition_congr fun x hx => kept hfront x.owner (hown x hx))

theorem alike_kept {r : Relation} (hr : r.occurrences ⊆ left.occurrences)
    (keeps : ∀ p ∈ r.placed, ∀ x ∈ p.predicate.refs, left.Keeps p x) :
    Alike names₁ names names₁.outside names.outside r r := by
  have kept : ∀ x ∈ left.occurrences.map Relation.id, names₁.outside x = names.outside x := by
    intro x hx
    obtain ⟨o, ho, rfl⟩ := List.mem_map.1 hx
    exact hn.outside_kept hn₁ extended hsub ho
  have hcondition : ∀ p : Predicate, (∀ x ∈ p.refs, left.Keeps ⟨[], p⟩ x) →
      names₁.outside.condition p = names.outside.condition p := by
    intro p hp
    refine View.condition_congr fun x hx => kept x.owner ?_
    rcases hp x hx with h | ⟨a, ha, -⟩
    · exact h
    · contradiction
  induction r with
  | table id => exact .table (kept id (List.mem_map_of_mem (hr (List.mem_singleton_self _))))
  | aliased id inner =>
    have ha := hr (List.mem_singleton_self _)
    refine .aliased (kept id (List.mem_map_of_mem ha)) ?_
    have hnone : ∀ b ∈ [], b ∈ (Relation.aliased id inner).wrapped := by simp
    refine alike_inside hn hn₁ extended hsub apart apart₁ ha hnone (List.Subset.refl _)
      (List.subset_cons_self _ _) fun p hp x hx => ?_
    rcases keeps ⟨p.around ++ [.aliased id inner], p.predicate⟩ (List.mem_map_of_mem hp) x hx with
      h | ⟨a, ha, hxa⟩
    · exact .inl h
    · rw [List.getLast?_concat, Option.mem_some_iff] at ha
      exact .inr (ha ▸ hxa)
  | selection id inner p ih =>
    have hinner := ih hr fun p hp => keeps p (List.mem_append_left _ hp)
    have hown := keeps ⟨[], p⟩ (List.mem_append_right _ (List.mem_singleton_self _))
    exact .selection hinner (hcondition p hown)
  | join id kind l r p ihl ihr =>
    have hleft := ihl (fun o ho => hr (List.mem_append_left _ ho))
      fun p hp => keeps p (List.mem_append_left _ (List.mem_append_left _ hp))
    have hright := ihr (fun o ho => hr (List.mem_append_right _ ho))
      fun p hp => keeps p (List.mem_append_left _ (List.mem_append_right _ hp))
    have hown := keeps ⟨[], p⟩ (List.mem_append_right _ (List.mem_singleton_self _))
    exact .join hleft hright (hcondition p hown)

end Kept

end Chain

namespace Query

/-- A statement that begins as another one does and has some clauses more. -/
structure Appends (q₁ q : Query) (clauses : Nat) : Prop where
  source_eq : q.source = q₁.source
  filter_eq : q.filter = q₁.filter
  joins_eq : ∃ more, q.joins = q₁.joins ++ more ∧ more.length = clauses
  columns_eq : ∃ more, q.columns = q₁.columns ++ more

variable {id : Identity} {kind : JoinKind} {left right : Relation} {p : Predicate} {q : Query}

/-- Joining onto a relation leaves its statement as it is and appends a clause for each occurrence
of the right operand. -/
theorem appends_of_compile (h : compile (.join id kind left right p) = .ok q)
    (apart : (Relation.join id kind left right p).AliasesApart)
    (keeps : ∀ s ∈ left.placed, ∀ x ∈ s.predicate.refs, left.Keeps s x) :
    ∃ q₁, compile left = .ok q₁ ∧ Appends q₁ q right.occurrences.length := by
  obtain ⟨names, chain, h⟩ := compiled_of_ok h
  obtain ⟨names₁, assigned, extended⟩ := Naming.assign_left h.assigned
  have hn := h.listed
  have hn₁ := Naming.names_of_assign assigned
  have hsub : left.occurrences ⊆ (Relation.join id kind left right p).occurrences :=
    List.subset_append_left _ _
  have apart₁ : left.AliasesApart := fun a ha b hb hid =>
    apart a (hsub ha) b hb (List.map_subset _ hsub hid)
  have halike := Chain.alike_kept hn hn₁ extended hsub apart apart₁ (List.Subset.refl _) keeps
  -- the columns of the left operand are compiled first, and under the same names
  have hcolumns := h.columns
  rw [Relation.attributes, List.mapM_append] at hcolumns
  obtain ⟨columns₁, hcolumns₁, hcolumns⟩ := bind_eq_ok_iff.1 hcolumns
  obtain ⟨columns₂, -, hcolumns⟩ := bind_eq_ok_iff.1 hcolumns
  have hkept : left.attributes.mapM names₁.outside.column = .ok columns₁ := by
    rw [← hcolumns₁]
    refine mapM_congr_of_mem fun x hx => ?_
    obtain ⟨o, ho, hid⟩ := Relation.owner_of_mem_attributes hx
    exact View.column_congr (hid ▸ hn.outside_kept hn₁ extended hsub ho) rfl
  have hflattens := h.flattens
  cases hflattens with
  | @join _ _ _ _ _ _ _ _ first second c i flatLeft flatRight single compiled settles =>
    have hfirst := Chain.ok_of_flattens flatLeft
    rw [← Chain.ofRelation_eq_of_alike halike] at hfirst
    refine ⟨⟨columns₁, first.source, first.joins, first.conditions⟩,
      compile_of_compiled ⟨assigned, hn₁, Chain.flattens_of_ok hfirst, hkept, rfl, rfl, rfl⟩,
      h.source_eq, h.filter_eq, ⟨_, h.joins_eq, ?_⟩, columns₂, (Except.ok.inj hcolumns).symm⟩
    rw [List.length_modify, flatRight.length_opened]

/-- Users with a lead who leads himself: the table of the users is used again inside two aliases. -/
def team : Relation :=
  let users := Relation.table ⟨0⟩ "users" ["id", "lead"]
  let own := Relation.selection ⟨2⟩ users (.binary .eq (.ref ⟨⟨0⟩, "lead"⟩) (.ref ⟨⟨0⟩, "id"⟩))
  let led := Relation.join ⟨5⟩ .inner users (.aliased ⟨4⟩ (.aliased ⟨3⟩ own))
    (.binary .eq (.ref ⟨⟨0⟩, "lead"⟩) (.ref ⟨⟨4⟩, "id"⟩))
  .selection ⟨6⟩ led (.binary .lt (.ref ⟨⟨0⟩, "id"⟩) (.literal (.integer 9)))

def holders : Relation :=
  .join ⟨8⟩ .leftOuter (.table ⟨1⟩ "badges" ["user"])
    (.aliased ⟨7⟩ (.table ⟨0⟩ "users" ["id", "lead"]))
    (.binary .eq (.ref ⟨⟨1⟩, "user"⟩) (.ref ⟨⟨7⟩, "id"⟩))

def badgedTeam : Relation :=
  .join ⟨9⟩ .inner team holders (.binary .eq (.ref ⟨⟨0⟩, "id"⟩) (.ref ⟨⟨7⟩, "id"⟩))

def badgedTeamQuery : Query where
  columns := [⟨"users", "id"⟩, ⟨"users", "lead"⟩, ⟨"users_2", "id"⟩, ⟨"users_2", "lead"⟩,
    ⟨"badges", "user"⟩, ⟨"users_3", "id"⟩, ⟨"users_3", "lead"⟩]
  source := ⟨"users", none⟩
  joins := [⟨.inner, ⟨"users", some "users_2"⟩,
      [.binary .eq (.ref ⟨"users", "lead"⟩) (.ref ⟨"users_2", "id"⟩),
        .binary .eq (.ref ⟨"users_2", "lead"⟩) (.ref ⟨"users_2", "id"⟩)]⟩,
    ⟨.inner, ⟨"badges", none⟩, []⟩,
    ⟨.leftOuter, ⟨"users", some "users_3"⟩,
      [.binary .eq (.ref ⟨"badges", "user"⟩) (.ref ⟨"users_3", "id"⟩),
        .binary .eq (.ref ⟨"users", "id"⟩) (.ref ⟨"users_3", "id"⟩)]⟩]
  filter := [.binary .lt (.ref ⟨"users", "id"⟩) (.literal (.integer 9))]

theorem appends_badgedTeam : compile badgedTeam = .ok badgedTeamQuery ∧ badgedTeam.AliasesApart ∧
    (∀ s ∈ team.placed, ∀ x ∈ s.predicate.refs, team.Keeps s x) ∧
    ∃ q₁, compile team = .ok q₁ ∧ Appends q₁ badgedTeamQuery 2 := by
  have hq : compile badgedTeam = .ok badgedTeamQuery := by rfl
  have hapart : badgedTeam.AliasesApart := by decide
  have hkeeps : ∀ s ∈ team.placed, ∀ x ∈ s.predicate.refs, team.Keeps s x := by decide
  exact ⟨hq, hapart, hkeeps, appends_of_compile hq hapart hkeeps⟩

end Query

end RelationalSelect
