import Mathlib.Logic.Equiv.Basic
import RelationalSelect.Proofs.Identities
import RelationalSelect.Proofs.Owners
import RelationalSelect.Proofs.Regrouping

/-!
Selections one after another.

Two selections in a row give the clauses of one selection by both predicates, up to the grouping of
the conjuncts, if the second predicate is no AND itself. This holds wherever they stand, and
whatever is put before and behind their conditions. The nodes above them are new in the other tree.
Aliases among these have new identities, to which the predicates refer; the identities of selections
and joins are never looked up, as no attribute belongs to them.
-/

set_option autoImplicit false

namespace RelationalSelect

namespace Relation

/-- Trees that differ in selections which the first one makes one after another and the second one
at once. A table or an alias goes by a new identity, and predicates refer to that. -/
inductive Conjoined (f : Identity → Identity) : Relation → Relation → Prop
  | table (id : Identity) (name : String) (columns : List String) :
      Conjoined f (.table id name columns) (.table (f id) name columns)
  | aliased (id : Identity) {inner inner₁ : Relation} (conjoined : Conjoined f inner inner₁) :
      Conjoined f (.aliased id inner) (.aliased (f id) inner₁)
  | selection (id id₁ : Identity) {inner inner₁ : Relation} (p : Predicate)
      (conjoined : Conjoined f inner inner₁) :
      Conjoined f (.selection id inner p) (.selection id₁ inner₁ (p.map (Attribute.rename f)))
  | join (id id₁ : Identity) (kind : JoinKind) {left right left₁ right₁ : Relation} (p : Predicate)
      (conjoinedLeft : Conjoined f left left₁) (conjoinedRight : Conjoined f right right₁) :
      Conjoined f (.join id kind left right p)
        (.join id₁ kind left₁ right₁ (p.map (Attribute.rename f)))
  | both (outer between id₁ : Identity) {inner inner₁ : Relation} (p q : Predicate)
      (separate : ∀ l r, q ≠ .binary .and l r) (conjoined : Conjoined f inner inner₁) :
      Conjoined f (.selection outer (.selection between inner p) q)
        (.selection id₁ inner₁ ((Expr.binary .and p q).map (Attribute.rename f)))

def owners (r : Relation) : List Identity := (r.nodes.filter ownsAttributes).map id

theorem owners_join (id : Identity) (kind : JoinKind) (left right : Relation) (p : Predicate) :
    (join id kind left right p).owners = left.owners ++ right.owners := by
  change ((left.nodes ++ right.nodes).filter ownsAttributes).map Relation.id = _
  rw [List.filter_append, List.map_append]
  rfl

namespace Conjoined

variable {f : Identity → Identity} {r r₁ : Relation}

theorem baseName_eq (h : Conjoined f r r₁) : r₁.baseName = r.baseName := by
  induction h with
  | table | join => rfl
  | aliased _ _ ih | selection _ _ _ _ ih | both _ _ _ _ _ _ _ ih => exact ih

theorem attributes_eq (h : Conjoined f r r₁) :
    r₁.attributes = r.attributes.map (Attribute.rename f) := by
  induction h with
  | table => simp [attributes, Attribute.rename]
  | aliased _ _ ih => simp [attributes, ih, Attribute.rename]
  | selection _ _ _ _ ih | both _ _ _ _ _ _ _ ih => exact ih
  | join _ _ _ _ _ _ ihl ihr => simp [attributes, ihl, ihr]

theorem owners_eq (h : Conjoined f r r₁) : r₁.owners = r.owners.map f := by
  induction h with
  | table => rfl
  | aliased id _ ih => exact congrArg (f id :: ·) ih
  | selection _ _ _ _ ih | both _ _ _ _ _ _ _ ih => exact ih
  | join _ _ _ _ _ _ ihl ihr => rw [owners_join, owners_join, ihl, ihr, List.map_append]

theorem sought_eq (h : Conjoined f r r₁) : r₁.sought = r.sought.map f := by
  have howners : ∀ p : Predicate, (p.map (Attribute.rename f)).refs.map Attribute.owner =
      (p.refs.map Attribute.owner).map f := by
    intro p
    rw [Expr.refs_map, List.map_map, List.map_map]
    rfl
  induction h with
  | table => rfl
  | aliased id _ ih => exact congrArg (f id :: ·) ih
  | selection _ _ _ _ ih => simp only [sought, ih, howners, List.map_append]
  | join _ _ _ _ _ _ ihl ihr => simp only [sought, ihl, ihr, howners, List.map_append]
  | both _ _ _ _ _ _ _ ih =>
    simp only [sought, ih, howners, List.map_append, Expr.refs, List.append_assoc]

theorem occurrences (h : Conjoined f r r₁) :
    List.Forall₂ (fun o o₁ => Conjoined f o o₁ ∧ o₁.id = f o.id) r.occurrences r₁.occurrences := by
  induction h with
  | table id name columns => exact .cons ⟨.table id name columns, rfl⟩ .nil
  | aliased id conjoined => exact .cons ⟨.aliased id conjoined, rfl⟩ .nil
  | selection _ _ _ _ ih | both _ _ _ _ _ _ _ ih => exact ih
  | join _ _ _ _ _ _ ihl ihr => exact List.rel_append ihl ihr

end Conjoined

def Owning (family : Relation → Prop) (x : Identity) : Prop :=
  ∃ r n, family r ∧ n ∈ r.nodes ∧ n.ownsAttributes = true ∧ n.id = x

def Replaces (family family₁ : Relation → Prop) (f : Identity → Identity) (x y : Identity) : Prop :=
  y = f x ∧ Owning family x ∧ Owning family₁ y

theorem owners_subset (r : Relation) : r.owners ⊆ r.ids := by
  rw [← map_id_nodes]
  exact List.map_subset _ List.filter_sublist.subset

theorem Owning.mem_owners {family : Relation → Prop} (coherent : Coherent family)
    {root r : Relation} {x : Identity} (h : Owning family x) (member : family root)
    (hr : r ∈ root.nodes) (hx : x ∈ r.ids) : x ∈ r.owners := by
  obtain ⟨s, n, hs, hn, owns, rfl⟩ := h
  rw [← map_id_nodes] at hx
  obtain ⟨m, hm, hid⟩ := List.mem_map.1 hx
  obtain rfl := coherent root s member hs m (nodes_subset hr hm) n hn hid
  exact List.mem_map.2 ⟨m, List.mem_filter.2 ⟨hm, owns⟩, rfl⟩

section Coherent

variable {family family₁ : Relation → Prop} (coherent : Coherent family)
  (coherent₁ : Coherent family₁) {f : Identity → Identity} (hf : Function.Injective f)
  {root root₁ : Relation} (member : family root) (member₁ : family₁ root₁)
include coherent coherent₁ hf member member₁

theorem Conjoined.counterpart {o o₁ : Relation} (ho : o ∈ root.nodes) (ho₁ : o₁ ∈ root₁.nodes)
    (h : Conjoined f o o₁) (hid : o₁.id = f o.id) :
    o.Counterpart f (Replaces family family₁ f) o₁ := by
  refine ⟨hid, h.baseName_eq, ?_⟩
  rintro x y ⟨rfl, hx, hfx⟩
  -- only tables and aliases correspond, so the members are compared as far as they are such
  constructor
  · intro hmem
    apply o₁.owners_subset
    rw [h.owners_eq]
    exact List.mem_map_of_mem (hx.mem_owners coherent member ho hmem)
  · intro hmem
    have howner := hfx.mem_owners coherent₁ member₁ ho₁ hmem
    rw [h.owners_eq, List.mem_map_of_injective hf] at howner
    exact o.owners_subset howner

theorem Conjoined.assign (h : Conjoined f root root₁) : Logged.Follows f
    (Naming.Counterpart f (Replaces family family₁ f)) (Naming.assign root)
    (Naming.assign root₁) := by
  refine Naming.assign_counterpart hf ?_
  obtain ⟨hlength, hzip⟩ := List.forall₂_iff_zip.1 h.occurrences
  refine List.forall₂_iff_zip.2 ⟨hlength, fun hmem => ?_⟩
  obtain ⟨ho, ho₁⟩ := List.of_mem_zip hmem
  obtain ⟨hconjoined, hid⟩ := hzip hmem
  exact hconjoined.counterpart coherent coherent₁ hf member member₁
    (mem_nodes_of_mem_occurrences ho) (mem_nodes_of_mem_occurrences ho₁) hid

end Coherent

theorem owning_of_sought {family : Relation → Prop} {root : Relation} (member : family root)
    (obtained : ∀ p ∈ root.placed, ∀ x ∈ p.predicate.refs, Obtained family x) :
    ∀ x ∈ root.sought, Owning family x :=
  forall_sought (fun n hn owns => ⟨root, n, member, hn, owns, rfl⟩)
    fun p hp x hx => (obtained p hp x hx).exists_owner

end Relation

theorem View.condition_binary_iff {view : View} {op : Operator} {p q : Predicate} {e : Condition} :
    view.condition (.binary op p q) = .ok e ↔ ∃ c d, view.condition p = .ok c ∧
      view.condition q = .ok d ∧ e = .binary op c d := by
  unfold condition
  rw [Expr.mapM, bind_eq_ok_iff]
  constructor
  · rintro ⟨c, hc, h⟩
    obtain ⟨d, hd, h⟩ := bind_eq_ok_iff.1 h
    cases h
    exact ⟨c, d, hc, hd, rfl⟩
  · rintro ⟨c, d, hc, hd, rfl⟩
    exact ⟨c, hc, bind_eq_ok_iff.2 ⟨d, hd, rfl⟩⟩

theorem View.spine_of_condition {view : View} {q : Predicate} {d : Condition}
    (h : view.condition q = .ok d) (separate : ∀ l r, q ≠ .binary .and l r) :
    Condition.spine d = [d] := by
  cases q with
  | ref x =>
    obtain ⟨c, -, h⟩ := bind_eq_ok_iff.1 h
    cases h
    rfl
  | literal v =>
    cases h
    rfl
  | binary op p q =>
    obtain ⟨c, d, -, -, rfl⟩ := View.condition_binary_iff.1 h
    cases op with
    | and => exact absurd rfl (separate p q)
    | _ => rfl

theorem Condition.within_binary (op : Operator) (c d : Condition) (names : List String) :
    Condition.within (.binary op c d) names = (c.within names && d.within names) := by
  simp [Condition.within, Condition.tables, Expr.refs]

namespace Chain

variable {names names₁ : Naming} {view view₁ : View}

/-- Whatever the one relation flattens into, the other does too, up to the grouping of
conjuncts. -/
def Covers (names names₁ : Naming) (view view₁ : View) (r r₁ : Relation) : Prop :=
  ∀ role before chain, Flattens names r view role before chain →
    ∃ chain₁, Flattens names₁ r₁ view₁ role before chain₁ ∧ chain.Regrouped chain₁

theorem Covers.table {id id₁ : Identity} {name : String} {columns columns₁ : List String}
    (named : view id = view₁ id₁) :
    Covers names names₁ view view₁ (.table id name columns) (.table id₁ name columns₁) := by
  intro role before chain h
  cases h with
  | table display => exact ⟨_, .table (named ▸ display), rfl, rfl, .nil, rfl⟩

theorem Covers.aliased {id id₁ : Identity} {inner inner₁ : Relation} (named : view id = view₁ id₁)
    (h : Covers names names₁ (names.inside id view) (names₁.inside id₁ view₁) inner inner₁) :
    Covers names names₁ view view₁ (.aliased id inner) (.aliased id₁ inner₁) := by
  intro role before chain hflat
  cases hflat with
  | aliased display flat single =>
    obtain ⟨chain₁, flat₁, hr⟩ := h role before _ flat
    refine ⟨_, .aliased (named ▸ display) flat₁ (hr.joins_eq_nil_iff.1 single), ?_⟩
    exact ⟨by rw [hr.source_eq], hr.conditions, hr.joins, hr.entered_eq⟩

theorem Covers.selection {id id₁ : Identity} {inner inner₁ : Relation} {p p₁ : Predicate}
    (h : Covers names names₁ view view₁ inner inner₁)
    (compiled : view.condition p = view₁.condition p₁) :
    Covers names names₁ view view₁ (.selection id inner p) (.selection id₁ inner₁ p₁) := by
  intro role before chain hflat
  cases hflat with
  | @selection _ _ _ _ _ _ _ c flat hc within =>
    obtain ⟨chain₁, flat₁, hr⟩ := h role before _ flat
    exact ⟨_, .selection flat₁ (compiled ▸ hc) (hr.entered_eq ▸ within), hr.restrict role c⟩

theorem Covers.join {id id₁ : Identity} {kind : JoinKind} {left right left₁ right₁ : Relation}
    {p p₁ : Predicate} (hl : Covers names names₁ view view₁ left left₁)
    (hr : Covers names names₁ view view₁ right right₁)
    (compiled : view.condition p = view₁.condition p₁) :
    Covers names names₁ view view₁ (.join id kind left right p)
      (.join id₁ kind left₁ right₁ p₁) := by
  intro role before chain hflat
  cases hflat with
  | @join _ _ _ _ _ _ _ _ first second c i flatLeft flatRight single hc settles =>
    obtain ⟨first₁, flatLeft₁, hfirst⟩ := hl role before _ flatLeft
    obtain ⟨second₁, flatRight₁, hsecond⟩ := hr .joined _ _ flatRight
    rw [hfirst.entered_eq] at flatRight₁ settles
    exact ⟨_, .join flatLeft₁ flatRight₁ (fun hk => hsecond.joins_eq_nil_iff.1 (single hk))
      (compiled ▸ hc) (hsecond.settles settles), hfirst.follow hsecond kind i c⟩

section Both

variable {i j k : Identity} {inner inner₁ : Relation} {p q p₁ q₁ : Predicate}
  (h : Covers names names₁ view view₁ inner inner₁) (hp : view.condition p = view₁.condition p₁)
  (hq : view.condition q = view₁.condition q₁)
include h hp hq

theorem Covers.both (separate : ∀ l r, q ≠ .binary .and l r) :
    Covers names names₁ view view₁ (.selection i (.selection j inner p) q)
      (.selection k inner₁ (.binary .and p₁ q₁)) := by
  intro role before chain hflat
  cases hflat with
  | @selection _ _ _ _ _ _ _ d flatInner hd withinOuter =>
  cases flatInner with
  | @selection _ _ _ _ _ _ chain c flat hc withinInner =>
    obtain ⟨chain₁, flat₁, hr⟩ := h role before chain flat
    have hand : view₁.condition (.binary .and p₁ q₁) = .ok (.binary .and c d) :=
      View.condition_binary_iff.2 ⟨c, d, hp ▸ hc, hq ▸ hd, rfl⟩
    refine ⟨_, .selection flat₁ hand fun hrole => ?_,
      hr.restrict_both role c (View.spine_of_condition hd separate)⟩
    rw [entered_restrict] at withinOuter
    rw [Condition.within_binary, ← hr.entered_eq, withinInner hrole, withinOuter hrole]
    rfl

theorem Covers.apart (separate : ∀ l r, q₁ ≠ .binary .and l r) :
    Covers names names₁ view view₁ (.selection k inner (.binary .and p q))
      (.selection i (.selection j inner₁ p₁) q₁) := by
  intro role before chain hflat
  cases hflat with
  | @selection _ _ _ _ _ _ chain e flat he within =>
    obtain ⟨c, d, hc, hd, rfl⟩ := View.condition_binary_iff.1 he
    rw [hp] at hc
    rw [hq] at hd
    obtain ⟨chain₁, flat₁, hr⟩ := h role before chain flat
    rw [Condition.within_binary, Bool.and_eq_true, hr.entered_eq] at within
    have flatInner : Flattens names₁ (.selection j inner₁ p₁) view₁ role before
        (chain₁.restrict role c) := .selection flat₁ hc fun hrole => (within hrole).1
    refine ⟨_, .selection flatInner hd fun hrole => ?_, ?_⟩
    · rw [entered_restrict]
      exact (within hrole).2
    · exact (hr.symm.restrict_both role c (View.spine_of_condition hd separate)).symm

end Both

theorem covers_of_conjoined {f : Identity → Identity} (hf : Function.Injective f)
    {same : Identity → Identity → Prop} (hc : names.Counterpart f same names₁) {r r₁ : Relation}
    (h : Relation.Conjoined f r r₁) (hs : ∀ x ∈ r.sought, same x (f x))
    (hview : view.Agrees same view₁) :
    Covers names names₁ view view₁ r r₁ ∧ Covers names₁ names view₁ view r₁ r := by
  have hcondition : ∀ {view view₁ : View} {p : Predicate}, view.Agrees same view₁ →
      (∀ x ∈ p.refs.map Attribute.owner, same x (f x)) →
      view.condition p = view₁.condition (p.map (Attribute.rename f)) := by
    intro view view₁ p hview hp
    refine View.condition_map fun x hx => ?_
    have hsame := hview _ _ (hp x.owner (List.mem_map_of_mem hx))
    exact View.column_congr hsame.symm rfl
  -- one induction for both directions, as the names seen inside an alias are the same for both
  induction h generalizing view view₁ with
  | table id =>
    have hname := hview id (f id) (hs id (List.mem_singleton_self id))
    exact ⟨.table hname.symm, .table hname⟩
  | aliased id _ ih =>
    obtain ⟨hid, hinner⟩ := List.forall_mem_cons.1 hs
    obtain ⟨hcovers, hcovers₁⟩ := ih hinner (hc.inside_agrees hf hview id)
    have hname := hview id (f id) hid
    exact ⟨hcovers.aliased hname.symm, hcovers₁.aliased hname⟩
  | selection _ _ p _ ih =>
    obtain ⟨hinner, hp⟩ := List.forall_mem_append.1 hs
    obtain ⟨hcovers, hcovers₁⟩ := ih hinner hview
    have heq := hcondition hview hp
    exact ⟨hcovers.selection heq, hcovers₁.selection heq.symm⟩
  | join _ _ _ p _ _ ihl ihr =>
    obtain ⟨hoperands, hp⟩ := List.forall_mem_append.1 hs
    obtain ⟨hleft, hright⟩ := List.forall_mem_append.1 hoperands
    obtain ⟨hl, hl₁⟩ := ihl hleft hview
    obtain ⟨hr, hr₁⟩ := ihr hright hview
    have heq := hcondition hview hp
    exact ⟨hl.join hr heq, hl₁.join hr₁ heq.symm⟩
  | both _ _ _ p q separate _ ih =>
    obtain ⟨hbelow, hq⟩ := List.forall_mem_append.1 hs
    obtain ⟨hinner, hp⟩ := List.forall_mem_append.1 hbelow
    obtain ⟨hcovers, hcovers₁⟩ := ih hinner hview
    have heqp := hcondition hview hp
    have heqq := hcondition hview hq
    exact ⟨hcovers.both heqp heqq separate, hcovers₁.apart heqp.symm heqq.symm separate⟩

end Chain

namespace Query

variable {root root₁ : Relation}

def Matched (root root₁ : Relation) : Prop :=
  ∀ q, compile root = .ok q → ∃ q₁, compile root₁ = .ok q₁ ∧ q.Regrouped q₁

theorem matched_of_error {e : Error} (h : (Naming.assign root).outcome = .error e) :
    Matched root root₁ := by
  intro q hq
  rw [compile_eq, h] at hq
  contradiction

theorem matched_of_covers {names names₁ : Naming}
    (assigned : (Naming.assign root).outcome = .ok names)
    (assigned₁ : (Naming.assign root₁).outcome = .ok names₁)
    (covers : Chain.Covers names names₁ names.outside names₁.outside root root₁)
    (columns : root.attributes.mapM names.outside.column =
      root₁.attributes.mapM names₁.outside.column) : Matched root root₁ := by
  intro q hq
  obtain ⟨names₂, chain, h⟩ := compiled_of_ok hq
  obtain rfl : names₂ = names := Except.ok.inj (h.assigned.symm.trans assigned)
  obtain ⟨chain₁, flat₁, hr⟩ := covers .leading [] chain h.flattens
  refine ⟨⟨q.columns, chain₁.source, chain₁.joins, chain₁.conditions⟩, ?_, ?_⟩
  · exact compile_of_compiled ⟨assigned₁, Naming.names_of_assign assigned₁, flat₁,
      columns ▸ h.columns, rfl, rfl, rfl⟩
  · exact ⟨rfl, h.source_eq.trans hr.source_eq, h.joins_eq ▸ hr.joins, h.filter_eq ▸ hr.conditions⟩

theorem Matched.exists_ok (h : Matched root root₁) :
    (∃ q, compile root = .ok q) → ∃ q, compile root₁ = .ok q := by
  rintro ⟨q, hq⟩
  obtain ⟨q₁, hq₁, -⟩ := h q hq
  exact ⟨q₁, hq₁⟩

theorem Matched.toSql (h : Matched root root₁) {style : Style} {text : String}
    (htext : root.toSql style = .ok text) : root₁.toSql style = .ok text := by
  unfold Relation.toSql at *
  cases hq : compile root with
  | error e =>
    rw [hq] at htext
    contradiction
  | ok q =>
    obtain ⟨q₁, hq₁, hregrouped⟩ := h q hq
    rw [hq] at htext
    rw [hq₁, ← htext]
    exact congrArg Except.ok (hregrouped.render_eq style).symm

theorem matched_of_conjoined {f : Identity → Identity} (hf : Function.Injective f)
    (h : Relation.Conjoined f root root₁) {family family₁ : Relation → Prop}
    (coherent : Relation.Coherent family) (coherent₁ : Relation.Coherent family₁)
    (member : family root) (member₁ : family₁ root₁)
    (owning : ∀ x ∈ root.sought, Relation.Owning family x)
    (owning₁ : ∀ x ∈ root₁.sought, Relation.Owning family₁ x) :
    Matched root root₁ ∧ Matched root₁ root := by
  have hassign := h.assign coherent coherent₁ hf member member₁
  rcases hassign.outcome_cases with ⟨e, he, he₁⟩ | ⟨names, names₁, hnames, hnames₁, hc⟩
  · exact ⟨matched_of_error he, matched_of_error he₁⟩
  · have hsame : ∀ x ∈ root.sought, Relation.Replaces family family₁ f x (f x) := fun x hx =>
      ⟨rfl, owning x hx, owning₁ (f x) (h.sought_eq ▸ List.mem_map_of_mem hx)⟩
    have hview : names.outside.Agrees (Relation.Replaces family family₁ f) names₁.outside := by
      rintro x y ⟨rfl, hx⟩
      exact hc.outside_eq hf ⟨rfl, hx⟩
    obtain ⟨covers, covers₁⟩ := Chain.covers_of_conjoined hf hc h hsame hview
    have hcolumns : root.attributes.mapM names.outside.column =
        root₁.attributes.mapM names₁.outside.column := by
      rw [h.attributes_eq]
      refine View.columns_map fun x hx => ?_
      obtain ⟨o, ho, hid⟩ := Relation.owner_of_mem_attributes hx
      have howner := hview _ _ (hsame x.owner (hid ▸ Relation.id_mem_sought ho))
      exact View.column_congr howner.symm rfl
    exact ⟨matched_of_covers hnames hnames₁ covers hcolumns,
      matched_of_covers hnames₁ hnames covers₁ hcolumns.symm⟩

/-- Two selections in a row and one by both of their predicates: either tree has a statement if the
other one has, and then the texts are the same in every style. -/
theorem compile_conjoined {f : Identity → Identity} (hf : Function.Injective f)
    (h : Relation.Conjoined f root root₁) {family family₁ : Relation → Prop}
    (coherent : Relation.Coherent family) (coherent₁ : Relation.Coherent family₁)
    (member : family root) (member₁ : family₁ root₁)
    (obtained : ∀ p ∈ root.placed, ∀ x ∈ p.predicate.refs, Relation.Obtained family x)
    (obtained₁ : ∀ p ∈ root₁.placed, ∀ x ∈ p.predicate.refs, Relation.Obtained family₁ x) :
    ((∃ q, compile root = .ok q) ↔ ∃ q, compile root₁ = .ok q) ∧
      ∀ style text, root.toSql style = .ok text ↔ root₁.toSql style = .ok text := by
  obtain ⟨hmatched, hmatched₁⟩ := matched_of_conjoined hf h coherent coherent₁ member member₁
    (Relation.owning_of_sought member obtained) (Relation.owning_of_sought member₁ obtained₁)
  exact ⟨⟨hmatched.exists_ok, hmatched₁.exists_ok⟩,
    fun _ _ => ⟨hmatched.toSql, hmatched₁.toSql⟩⟩

def oneByOne (n : Nat) (r : Relation) (p q : Predicate) : Relation :=
  .selection ⟨n + 1⟩ (.selection ⟨n⟩ r p) q

def atOnce (n : Nat) (r : Relation) (p q : Predicate) : Relation :=
  .selection ⟨n⟩ r (.binary .and p q)

/-- Photos that some people like, with two conditions in the alias of the people, two on the photos
and two on the whole. -/
def likes (select : Nat → Relation → Predicate → Predicate → Relation) (person : Identity) :
    Relation :=
  let people := Relation.aliased person (select 2 (.table ⟨0⟩ "users" ["id", "age"])
    (.binary .lt (.ref ⟨⟨0⟩, "id"⟩) (.literal (.integer 9)))
    (.binary .gt (.ref ⟨⟨0⟩, "age"⟩) (.literal (.integer 5))))
  let liked := select 4 (.table ⟨1⟩ "photos" ["user", "likes"])
    (.binary .ne (.ref ⟨⟨1⟩, "user"⟩) (.literal (.integer 3)))
    (.binary .gt (.ref ⟨⟨1⟩, "likes"⟩) (.literal (.integer 0)))
  let joined := Relation.join ⟨6⟩ .inner people liked
    (.binary .eq (.ref ⟨person, "id"⟩) (.ref ⟨⟨1⟩, "user"⟩))
  select 7 joined
    (.binary .and (.ref ⟨⟨1⟩, "likes"⟩)
      (.binary .and (.ref ⟨person, "age"⟩) (.ref ⟨person, "id"⟩)))
    (.binary .or (.binary .eq (.ref ⟨person, "id"⟩) (.literal (.integer 1)))
      (.binary .lt (.ref ⟨person, "age"⟩) (.literal (.integer 30))))

def likesQuery : Query where
  columns := [⟨"users", "id"⟩, ⟨"users", "age"⟩, ⟨"photos", "user"⟩, ⟨"photos", "likes"⟩]
  source := ⟨"users", none⟩
  joins := [⟨.inner, ⟨"photos", none⟩,
    [.binary .eq (.ref ⟨"users", "id"⟩) (.ref ⟨"photos", "user"⟩),
      .binary .ne (.ref ⟨"photos", "user"⟩) (.literal (.integer 3)),
      .binary .gt (.ref ⟨"photos", "likes"⟩) (.literal (.integer 0))]⟩]
  filter := [.binary .lt (.ref ⟨"users", "id"⟩) (.literal (.integer 9)),
    .binary .gt (.ref ⟨"users", "age"⟩) (.literal (.integer 5)),
    .binary .and (.ref ⟨"photos", "likes"⟩)
      (.binary .and (.ref ⟨"users", "age"⟩) (.ref ⟨"users", "id"⟩)),
    .binary .or (.binary .eq (.ref ⟨"users", "id"⟩) (.literal (.integer 1)))
      (.binary .lt (.ref ⟨"users", "age"⟩) (.literal (.integer 30)))]

def likesText : String :=
  "SELECT `users`.`id`, `users`.`age`, `photos`.`user`, `photos`.`likes` FROM `users` " ++
    "INNER JOIN `photos` ON `users`.`id` = `photos`.`user` AND `photos`.`user` <> 3 " ++
    "AND `photos`.`likes` > 0 WHERE `users`.`id` < 9 AND `users`.`age` > 5 AND `photos`.`likes` " ++
    "AND (`users`.`age` AND `users`.`id`) AND (`users`.`id` = 1 OR `users`.`age` < 30)"

theorem conjoined_likes : Relation.Conjoined (Equiv.swap ⟨9⟩ ⟨10⟩) (likes oneByOne ⟨9⟩)
    (likes atOnce ⟨10⟩) := by
  refine .both ⟨8⟩ ⟨7⟩ ⟨7⟩ _ _ nofun (.join ⟨6⟩ ⟨6⟩ .inner _ (.aliased ⟨9⟩ ?_) ?_)
  · exact .both ⟨3⟩ ⟨2⟩ ⟨2⟩ _ _ nofun (.table ⟨0⟩ "users" ["id", "age"])
  · exact .both ⟨5⟩ ⟨4⟩ ⟨4⟩ _ _ nofun (.table ⟨1⟩ "photos" ["user", "likes"])

set_option maxRecDepth 10000 in
theorem compile_likes : let f : Identity → Identity := Equiv.swap ⟨9⟩ ⟨10⟩
    let root := likes oneByOne ⟨9⟩
    let root₁ := likes atOnce ⟨10⟩
    Function.Injective f ∧ Relation.Conjoined f root root₁ ∧
    Relation.Coherent (· ∈ root.nodes) ∧ Relation.Coherent (· ∈ root₁.nodes) ∧
    (∀ p ∈ root.placed, ∀ x ∈ p.predicate.refs, Relation.Obtained (· ∈ root.nodes) x) ∧
    (∀ p ∈ root₁.placed, ∀ x ∈ p.predicate.refs, Relation.Obtained (· ∈ root₁.nodes) x) ∧
    ((∃ q, compile root = .ok q) ↔ ∃ q, compile root₁ = .ok q) ∧
    (∀ style text, root.toSql style = .ok text ↔ root₁.toSql style = .ok text) ∧
    compile root = .ok likesQuery ∧ compile root₁ ≠ .ok likesQuery ∧
    root.toSql ⟨false, false⟩ = .ok likesText ∧ root₁.toSql ⟨false, false⟩ = .ok likesText := by
  intro f root root₁
  have hcoherent : Relation.Coherent (· ∈ root.nodes) := Relation.coherent_nodes (by decide)
  have hcoherent₁ : Relation.Coherent (· ∈ root₁.nodes) := Relation.coherent_nodes (by decide)
  have hobtained := Relation.obtained_of_listed (r := root) (by decide)
  have hobtained₁ := Relation.obtained_of_listed (r := root₁) (by decide)
  have hinjective : Function.Injective f := Equiv.injective _
  obtain ⟨hiff, htexts⟩ := compile_conjoined hinjective conjoined_likes hcoherent hcoherent₁
    List.mem_cons_self List.mem_cons_self hobtained hobtained₁
  have htext : root.toSql ⟨false, false⟩ = .ok likesText := by
    change _ = Except.ok (String.ofList _ ++ String.ofList _ ++ String.ofList _ ++ String.ofList _)
    simp only [← String.ofList_append]
    rfl
  exact ⟨hinjective, conjoined_likes, hcoherent, hcoherent₁, hobtained, hobtained₁, hiff, htexts,
    by rfl, by decide, htext, (htexts _ _).1 htext⟩

end Query

end RelationalSelect
