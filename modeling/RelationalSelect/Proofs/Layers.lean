import Mathlib.Logic.Equiv.Basic
import RelationalSelect.Proofs.Identities
import RelationalSelect.Proofs.Owners
import RelationalSelect.Proofs.SelectList

/-!
An alias around an alias.

The outer alias takes the place of the inner one in FROM, with the same base table and so with the
same name. The inner one has no name any more. Whatever refers to it, or to a relation beneath it,
finds the outer one: inside as the only occurrence around it, and outside as the first one that has
it inside. So the layer is not noticed anywhere else.
-/

set_option autoImplicit false

namespace RelationalSelect

namespace Relation

/-- Trees that differ in one occurrence, which has another alias around it in the second one. The
selections and joins above it are new nodes. -/
inductive Layered (a : Relation) (layer : Identity) : Relation → Relation → Prop
  | here : Layered a layer a (.aliased layer a)
  | selection {inner inner₁ : Relation} (id id₁ : Identity) (predicate : Predicate)
      (layered : Layered a layer inner inner₁) :
      Layered a layer (.selection id inner predicate) (.selection id₁ inner₁ predicate)
  | joinLeft {left left₁ : Relation} (id id₁ : Identity) (kind : JoinKind) (right : Relation)
      (predicate : Predicate) (layered : Layered a layer left left₁) :
      Layered a layer (.join id kind left right predicate) (.join id₁ kind left₁ right predicate)
  | joinRight {right right₁ : Relation} (id id₁ : Identity) (kind : JoinKind) (left : Relation)
      (predicate : Predicate) (layered : Layered a layer right right₁) :
      Layered a layer (.join id kind left right predicate) (.join id₁ kind left right₁ predicate)

/-- An identity of the tree without the layer, and one that stands for it in the tree with the
layer: itself, or the layer for the alias in it. -/
def StandsFor (own layer x y : Identity) : Prop := (y = x ∧ x ≠ layer) ∨ (x = own ∧ y = layer)

theorem standsFor_swap (own : Identity) {layer x : Identity} (hx : x ≠ layer) :
    StandsFor own layer x (Equiv.swap own layer x) := by
  by_cases h : x = own
  · exact .inr ⟨h, by rw [h, Equiv.swap_apply_left]⟩
  · exact .inl ⟨Equiv.swap_apply_of_ne_of_ne h hx, hx⟩

/-- An identity that no node of a tree has and no predicate refers to. -/
structure New (layer : Identity) (r : Relation) : Prop where
  fresh : layer ∉ r.ids
  unused : ∀ p ∈ r.placed, ∀ x ∈ p.predicate.refs, x.owner ≠ layer

theorem New.sought_ne {layer : Identity} {r : Relation} (h : r.New layer) :
    ∀ x ∈ r.sought, x ≠ layer := by
  refine forall_sought (fun n hn _ heq => h.fresh ?_) h.unused
  rw [← heq, ← map_id_nodes]
  exact List.mem_map_of_mem hn

/-- A part of the trees that neither the alias nor its layer stands in. -/
structure Apart (own layer : Identity) (r : Relation) : Prop where
  own_not_mem : own ∉ r.ids
  layer_not_mem : layer ∉ r.ids

variable {own layer : Identity}

theorem Apart.swap_eq {r : Relation} (h : r.Apart own layer) {x : Identity} (hx : x ∈ r.ids) :
    Equiv.swap own layer x = x :=
  Equiv.swap_apply_of_ne_of_ne (fun heq => h.own_not_mem (heq ▸ hx))
    fun heq => h.layer_not_mem (heq ▸ hx)

theorem Apart.counterpart {r : Relation} (h : r.Apart own layer) :
    r.Counterpart (Equiv.swap own layer) (StandsFor own layer) r := by
  refine ⟨(h.swap_eq r.id_mem_ids).symm, rfl, ?_⟩
  rintro x y (⟨rfl, -⟩ | ⟨rfl, rfl⟩)
  · exact Iff.rfl
  · exact iff_of_false h.own_not_mem h.layer_not_mem

theorem counterpart_layer (own layer : Identity) (inner : Relation) :
    (aliased own inner).Counterpart (Equiv.swap own layer) (StandsFor own layer)
      (aliased layer (aliased own inner)) := by
  refine ⟨(Equiv.swap_apply_left own layer).symm, rfl, ?_⟩
  rintro x y (⟨rfl, hy⟩ | ⟨rfl, rfl⟩)
  · simp [ids, hy]
  · simp [ids]

section Occurrences

variable {a root root₁ : Relation}

theorem Layered.mem (h : Layered a layer root root₁) : a.id ∈ root.ids := by
  induction h with
  | here => exact a.id_mem_ids
  | selection _ _ _ _ ih => exact List.mem_cons_of_mem _ ih
  | joinLeft _ _ _ _ _ _ ih => exact List.mem_cons_of_mem _ (List.mem_append_left _ ih)
  | joinRight _ _ _ _ _ _ ih => exact List.mem_cons_of_mem _ (List.mem_append_right _ ih)

theorem Layered.occurrences (h : Layered a layer root root₁) (ha : a.occurrences = [a]) :
    ∃ front back, root.occurrences = front ++ a :: back ∧
      root₁.occurrences = front ++ .aliased layer a :: back := by
  induction h with
  | here => exact ⟨[], [], ha, rfl⟩
  | selection _ _ _ _ ih => exact ih
  | joinLeft _ _ _ right _ _ ih =>
    obtain ⟨front, back, h, h₁⟩ := ih
    exact ⟨front, back ++ right.occurrences, by simp [Relation.occurrences, h],
      by simp [Relation.occurrences, h₁]⟩
  | joinRight _ _ _ left _ _ ih =>
    obtain ⟨front, back, h, h₁⟩ := ih
    exact ⟨left.occurrences ++ front, back, by simp [Relation.occurrences, h],
      by simp [Relation.occurrences, h₁]⟩

theorem flatMap_ids_sublist (r : Relation) : (r.occurrences.flatMap ids).Sublist r.ids := by
  induction r with
  | table | aliased => simp [occurrences]
  | selection _ _ _ ih => exact ih.cons _
  | join _ _ _ _ _ ihl ihr =>
    rw [occurrences, List.flatMap_append]
    exact (ihl.append ihr).cons _

theorem not_mem_ids_of_once {front back : List Relation} (once : root.ids.count a.id = 1)
    (h : root.occurrences = front ++ a :: back) : ∀ o ∈ front ++ back, a.id ∉ o.ids := by
  have hle := (flatMap_ids_sublist root).count_le a.id
  have hpos := List.count_pos_iff.2 a.id_mem_ids
  rw [h, List.flatMap_append, List.flatMap_cons, List.count_append, List.count_append, once] at hle
  have hzero : a.id ∉ (front ++ back).flatMap ids := by
    rw [← List.count_eq_zero, List.flatMap_append, List.count_append]
    omega
  exact fun o ho hid => hzero (List.mem_flatMap.2 ⟨o, ho, hid⟩)

theorem Layered.occurrences_apart (h : Layered a layer root root₁) (ha : a.occurrences = [a])
    (once : root.ids.count a.id = 1) (fresh : layer ∉ root.ids) :
    ∃ front back, root.occurrences = front ++ a :: back ∧
      root₁.occurrences = front ++ .aliased layer a :: back ∧
      ∀ o ∈ front ++ back, o.Apart a.id layer := by
  obtain ⟨front, back, hroot, hroot₁⟩ := h.occurrences ha
  refine ⟨front, back, hroot, hroot₁, fun o ho => ⟨not_mem_ids_of_once once hroot o ho, ?_⟩⟩
  have hmem : o ∈ root.occurrences := by
    rw [hroot]
    exact ((List.sublist_cons_self a back).append_left front).subset ho
  exact fun hx => fresh (ids_subset_of_mem_occurrences hmem hx)

end Occurrences

theorem Layered.layer_only {inner root root₁ : Relation}
    (h : Layered (.aliased own inner) layer root root₁) (once : root.ids.count own = 1)
    (fresh : layer ∉ root.ids) : .aliased layer (.aliased own inner) ∈ root₁.occurrences ∧
      ∀ o ∈ root₁.occurrences, own ∈ o.ids → o = .aliased layer (.aliased own inner) := by
  obtain ⟨front, back, -, hroot₁, hapart⟩ := h.occurrences_apart rfl once fresh
  rw [hroot₁]
  refine ⟨List.mem_append_right _ List.mem_cons_self, fun o ho hown => ?_⟩
  rw [List.mem_append, List.mem_cons, or_left_comm, ← List.mem_append] at ho
  exact ho.resolve_right fun ho => (hapart o ho).own_not_mem hown

theorem Apart.map_attributes {r : Relation} (h : r.Apart own layer) :
    r.attributes.map (Attribute.rename (Equiv.swap own layer)) = r.attributes := by
  refine (List.map_congr_left fun x hx => ?_).trans (List.map_id _)
  rw [Attribute.rename, h.swap_eq (owner_mem_ids hx), id_eq]

theorem Layered.attributes {inner root root₁ : Relation}
    (h : Layered (.aliased own inner) layer root root₁) (once : root.ids.count own = 1)
    (fresh : layer ∉ root.ids) :
    root₁.attributes = root.attributes.map (Attribute.rename (Equiv.swap own layer)) := by
  obtain ⟨front, back, hroot, hroot₁, hapart⟩ := h.occurrences_apart rfl once fresh
  have hkept : ∀ rs ⊆ front ++ back,
      (rs.flatMap Relation.attributes).map (Attribute.rename (Equiv.swap own layer)) =
        rs.flatMap Relation.attributes := by
    intro rs hrs
    rw [List.map_flatMap]
    exact List.flatMap_congr fun o ho => (hapart o (hrs ho)).map_attributes
  have hlayer : (aliased own inner).attributes.map (Attribute.rename (Equiv.swap own layer)) =
      (aliased layer (aliased own inner)).attributes := by
    simp [Relation.attributes, Attribute.rename]
  rw [attributes_eq_flatMap, attributes_eq_flatMap, hroot, hroot₁]
  simp only [List.flatMap_append, List.flatMap_cons, List.map_append, hlayer,
    hkept front (List.subset_append_left _ _), hkept back (List.subset_append_right _ _)]

end Relation

namespace View.Agrees

variable {own layer : Identity} {view view₁ : View}
  (h : view.Agrees (Relation.StandsFor own layer) view₁)
include h

theorem eq_of_ne {x : Identity} (hx : x ≠ layer) : view x = view₁ x :=
  (h x x (.inl ⟨rfl, hx⟩)).symm

theorem condition_eq {p : Predicate} (howners : ∀ x ∈ p.refs.map Attribute.owner, x ≠ layer) :
    view.condition p = view₁.condition p :=
  condition_congr fun x hx => h.eq_of_ne (howners x.owner (List.mem_map_of_mem hx))

end View.Agrees

namespace Naming

theorem inside_outside_self (names : Naming) (id : Identity) :
    names.inside id names.outside id = names.outside id := by
  unfold inside outside
  cases names.get? id with
  | none => rfl
  | some o => simp

theorem inside_of_unnamed {names : Naming} {id : Identity} (h : names.get? id = none)
    (view : View) : names.inside id view = view := by
  funext x
  rw [inside, h]

/-- Names of the two trees by which nobody notices the layer. -/
structure Layering (own layer : Identity) (names names₁ : Naming) : Prop where
  counterpart : names.Counterpart (Equiv.swap own layer) (Relation.StandsFor own layer) names₁
  unnamed : names₁.get? own = none
  agrees : names.outside.Agrees (Relation.StandsFor own layer) names₁.outside

variable {own layer : Identity} {names names₁ : Naming} {inner root root₁ : Relation}

theorem assign_layered (h : Relation.Layered (.aliased own inner) layer root root₁)
    (once : root.ids.count own = 1) (fresh : layer ∉ root.ids) :
    Logged.Follows (Equiv.swap own layer)
      (Counterpart (Equiv.swap own layer) (Relation.StandsFor own layer)) (assign root)
      (assign root₁) := by
  obtain ⟨front, back, hroot, hroot₁, hapart⟩ := h.occurrences_apart rfl once fresh
  refine assign_counterpart (Equiv.injective _) ?_
  rw [hroot, hroot₁]
  refine List.rel_append ?_ (.cons (Relation.counterpart_layer own layer inner) ?_)
  · exact List.forall₂_same.2 fun o ho => (hapart o (List.mem_append_left _ ho)).counterpart
  · exact List.forall₂_same.2 fun o ho => (hapart o (List.mem_append_right _ ho)).counterpart

theorem Counterpart.layering
    (hc : names.Counterpart (Equiv.swap own layer) (Relation.StandsFor own layer) names₁)
    (hn₁ : names₁.Names root₁.occurrences)
    (h : Relation.Layered (.aliased own inner) layer root root₁)
    (once : root.ids.count own = 1) (fresh : layer ∉ root.ids) :
    Layering own layer names names₁ := by
  have hne : own ≠ layer := fun heq => fresh (heq ▸ h.mem)
  obtain ⟨hmem, honly⟩ := h.layer_only once fresh
  have hunnamed : names₁.get? own = none := by
    refine Option.eq_none_iff_forall_ne_some.2 fun o ho => ?_
    obtain ⟨r, hr, he⟩ := hn₁.mem_of_get? ho
    have hid : own = r.id := he.id_eq
    rw [honly r hr (hid ▸ r.id_mem_ids)] at hid
    exact hne hid
  have hlayer : names₁.outside layer = names.outside own := by
    have heq := hc.outside_eq (Equiv.injective _) (Relation.standsFor_swap own hne)
    rwa [Equiv.swap_apply_left] at heq
  -- what looks for the alias outside finds the layer, the first occurrence that has it inside
  have hown : names₁.outside own = names₁.outside layer := by
    obtain ⟨o, ho⟩ := Relation.exists_carrier ⟨_, hmem, (by simp [Relation.ids] : own ∈ _)⟩
    rw [hn₁.outside_eq own, ho, honly o (Relation.carrier_mem ho) (Relation.mem_ids_of_carrier ho)]
    exact (hn₁.outside_of_mem hmem).symm
  refine ⟨hc, hunnamed, ?_⟩
  rintro x y (⟨rfl, hy⟩ | ⟨rfl, rfl⟩)
  · by_cases hx : y = own
    · rw [hx, hown, hlayer]
    · have heq := hc.outside_eq (Equiv.injective _) (Relation.standsFor_swap own hy)
      rwa [Equiv.swap_apply_of_ne_of_ne hx hy] at heq
  · exact hlayer

end Naming

namespace Chain

variable {own layer : Identity} {names names₁ : Naming} {inner r r₁ : Relation}

theorem alike_of_sought
    (hc : names.Counterpart (Equiv.swap own layer) (Relation.StandsFor own layer) names₁)
    {view view₁ : View} (hview : view.Agrees (Relation.StandsFor own layer) view₁)
    (hown : own ∉ r.ids) (hs : ∀ x ∈ r.sought, x ≠ layer) :
    Alike names names₁ view view₁ r r := by
  induction r generalizing view view₁ with
  | table id => exact .table (hview.eq_of_ne (hs id (List.mem_singleton_self id)))
  | aliased id inner ih =>
    obtain ⟨hid, hinner⟩ := List.forall_mem_cons.1 hs
    rw [Relation.ids, List.mem_cons, not_or] at hown
    have hinside := hc.inside_agrees (Equiv.injective _) hview id
    rw [Equiv.swap_apply_of_ne_of_ne (Ne.symm hown.1) hid] at hinside
    exact .aliased (hview.eq_of_ne hid) (ih hinside hown.2 hinner)
  | selection _ _ _ ih =>
    obtain ⟨hinner, howners⟩ := List.forall_mem_append.1 hs
    rw [Relation.ids, List.mem_cons, not_or] at hown
    exact .selection (ih hview hown.2 hinner) (hview.condition_eq howners)
  | join _ _ _ _ _ ihl ihr =>
    obtain ⟨hoperands, howners⟩ := List.forall_mem_append.1 hs
    obtain ⟨hleft, hright⟩ := List.forall_mem_append.1 hoperands
    rw [Relation.ids, List.mem_cons, List.mem_append, not_or, not_or] at hown
    exact .join (ihl hview hown.2.1 hleft) (ihr hview hown.2.2 hright) (hview.condition_eq howners)

theorem ofRelation_layer {view view₁ : View} (unnamed : names₁.get? own = none)
    (named : view own = view₁ layer) (within : view own = names₁.inside layer view₁ own)
    (alike : Alike names names₁ (names.inside own view) (names₁.inside layer view₁) inner inner)
    (role : Role) (before : List String) :
    ofRelation names₁ (.aliased layer (.aliased own inner)) view₁ role before =
      ofRelation names (.aliased own inner) view role before := by
  simp only [ofRelation, Naming.inside_of_unnamed unnamed, ← View.display_congr named,
    ← View.display_congr within, ← ofRelation_eq_of_alike alike, bind_assoc]
  cases view.display own with
  | error e => rfl
  | ok display =>
    have hpure : (liftM (Except.ok display : Except Error String) : Logged String) =
        pure display := rfl
    simp only [hpure, pure_bind]
    refine Logged.bind_congr fun chain _ => ?_
    cases hjoins : chain.joins.isEmpty with
    | true =>
      simp only [hjoins, if_true, pure_bind]
      rfl
    | false => rfl

theorem ofRelation_layered (hl : names.Layering own layer names₁)
    (h : Relation.Layered (.aliased own inner) layer r r₁) (once : r.ids.count own = 1)
    (hs : ∀ x ∈ r.sought, x ≠ layer) (role : Role) (before : List String) :
    ofRelation names₁ r₁ names₁.outside role before =
      ofRelation names r names.outside role before := by
  -- induction on the way down to the alias; nothing beside the way has to do with the layer
  induction h generalizing role before with
  | here =>
    obtain ⟨hne, hinner⟩ := List.forall_mem_cons.1 hs
    rw [Relation.ids, List.count_cons_self] at once
    have hnone : own ∉ inner.ids := List.count_eq_zero.1 (by omega)
    have hinside := hl.counterpart.inside_agrees (Equiv.injective _) hl.agrees own
    rw [Equiv.swap_apply_left] at hinside
    refine ofRelation_layer hl.unnamed (hl.agrees own layer (.inr ⟨rfl, rfl⟩)).symm ?_
      (alike_of_sought hl.counterpart hinside hnone hinner) role before
    rw [← hinside.eq_of_ne hne, names.inside_outside_self]
  | @selection below below₁ id id₁ predicate layered ih =>
    obtain ⟨hbelow, howners⟩ := List.forall_mem_append.1 hs
    have hpos : 0 < below.ids.count own := List.count_pos_iff.2 layered.mem
    rw [Relation.ids, List.count_cons] at once
    simp only [ofRelation, ih (by omega) hbelow, ← hl.agrees.condition_eq howners]
  | @joinLeft left left₁ id id₁ kind right predicate layered ih =>
    obtain ⟨hoperands, howners⟩ := List.forall_mem_append.1 hs
    obtain ⟨hleft, hright⟩ := List.forall_mem_append.1 hoperands
    have hpos : 0 < left.ids.count own := List.count_pos_iff.2 layered.mem
    rw [Relation.ids, List.count_cons, List.count_append] at once
    have hnone : own ∉ right.ids := List.count_eq_zero.1 (by omega)
    have halike := alike_of_sought hl.counterpart hl.agrees hnone hright
    simp only [ofRelation, ih (by omega) hleft, ← ofRelation_eq_of_alike halike,
      ← hl.agrees.condition_eq howners]
  | @joinRight right right₁ id id₁ kind left predicate layered ih =>
    obtain ⟨hoperands, howners⟩ := List.forall_mem_append.1 hs
    obtain ⟨hleft, hright⟩ := List.forall_mem_append.1 hoperands
    have hpos : 0 < right.ids.count own := List.count_pos_iff.2 layered.mem
    rw [Relation.ids, List.count_cons, List.count_append] at once
    have hnone : own ∉ left.ids := List.count_eq_zero.1 (by omega)
    have halike := alike_of_sought hl.counterpart hl.agrees hnone hleft
    simp only [ofRelation, ih (by omega) hright, ← ofRelation_eq_of_alike halike,
      ← hl.agrees.condition_eq howners]

end Chain

namespace Query

variable {own layer : Identity} {inner root root₁ : Relation}

/-- A layer around an alias that stands once in a tree changes neither the statement nor the
error. -/
theorem compile_layered (h : Relation.Layered (.aliased own inner) layer root root₁)
    (once : root.ids.count own = 1) (new : root.New layer) : compile root₁ = compile root := by
  rw [compile_eq, compile_eq]
  rcases (Naming.assign_layered h once new.fresh).outcome_cases with
    ⟨e, he, he₁⟩ | ⟨names, names₁, hnames, hnames₁, hc⟩
  · rw [he, he₁]
    rfl
  · have hl := hc.layering (Naming.names_of_assign hnames₁) h once new.fresh
    rw [hnames, hnames₁]
    change compileUnder names₁ names₁.outside root₁ = compileUnder names names.outside root
    have hcolumns : ∀ x ∈ root.attributes, names.outside.column x =
        names₁.outside.column (x.rename (Equiv.swap own layer)) := by
      intro x hx
      have hne : x.owner ≠ layer := fun heq => new.fresh (heq ▸ Relation.owner_mem_ids hx)
      have hview := hl.agrees _ _ (Relation.standsFor_swap own hne)
      exact View.column_congr hview.symm rfl
    unfold compileUnder
    rw [Chain.ofRelation_layered hl h once new.sought_ne, h.attributes once new.fresh,
      ← View.columns_map hcolumns]

/-- Users joined with some of them, whom one condition names by an alias and another by the table
in it. -/
def colleagues (other : Relation) (join top : Identity) : Relation :=
  .selection top (.join join .inner (.table ⟨0⟩ "users" ["id", "boss"]) other
    (.binary .eq (.ref ⟨⟨0⟩, "boss"⟩) (.ref ⟨⟨3⟩, "boss"⟩)))
    (.binary .lt (.ref ⟨⟨0⟩, "id"⟩) (.ref ⟨⟨1⟩, "id"⟩))

def juniors : Relation :=
  .selection ⟨2⟩ (.table ⟨1⟩ "users" ["id", "boss"])
    (.binary .lt (.ref ⟨⟨1⟩, "id"⟩) (.literal (.integer 9)))

def colleaguesQuery : Query where
  columns := [⟨"users", "id"⟩, ⟨"users", "boss"⟩, ⟨"users_2", "id"⟩, ⟨"users_2", "boss"⟩]
  source := ⟨"users", none⟩
  joins := [⟨.inner, ⟨"users", some "users_2"⟩,
    [.binary .eq (.ref ⟨"users", "boss"⟩) (.ref ⟨"users_2", "boss"⟩),
      .binary .lt (.ref ⟨"users_2", "id"⟩) (.literal (.integer 9))]⟩]
  filter := [.binary .lt (.ref ⟨"users", "id"⟩) (.ref ⟨"users_2", "id"⟩)]

theorem compile_colleagues : let root := colleagues (.aliased ⟨3⟩ juniors) ⟨4⟩ ⟨5⟩
    let root₁ := colleagues (.aliased ⟨6⟩ (.aliased ⟨3⟩ juniors)) ⟨7⟩ ⟨8⟩
    Relation.Layered (.aliased ⟨3⟩ juniors) ⟨6⟩ root root₁ ∧ root.ids.count ⟨3⟩ = 1 ∧
      root.New ⟨6⟩ ∧ compile root₁ = compile root ∧ compile root = .ok colleaguesQuery := by
  intro root root₁
  have hlayered : Relation.Layered (.aliased ⟨3⟩ juniors) ⟨6⟩ root root₁ :=
    .selection ⟨5⟩ ⟨8⟩ _ (.joinRight ⟨4⟩ ⟨7⟩ .inner _ _ .here)
  have hnew : root.New ⟨6⟩ := ⟨by decide, by decide⟩
  exact ⟨hlayered, by decide, hnew, compile_layered hlayered (by decide) hnew, by rfl⟩

end Query

end RelationalSelect
