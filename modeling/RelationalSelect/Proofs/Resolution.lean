import RelationalSelect.Proofs.Alike
import RelationalSelect.Proofs.Contexts
import RelationalSelect.Proofs.FirstAliases
import RelationalSelect.Proofs.Owners

set_option autoImplicit false

namespace RelationalSelect

namespace Relation

/-- An attribute bound to the tree, or as it is if the tree does not have it. -/
def bound (root : Relation) (x : Attribute) : Attribute := (root.resolve x).getD x

/-- A tree with other attributes outside its aliases. The selections and joins there are new. -/
inductive Rebound (ρ : Attribute → Attribute) : Relation → Relation → Prop
  | table (id : Identity) (name : String) (columns : List String) :
      Rebound ρ (.table id name columns) (.table id name columns)
  | aliased (id : Identity) (inner : Relation) : Rebound ρ (.aliased id inner) (.aliased id inner)
  | selection (id id₁ : Identity) {inner inner₁ : Relation} (predicate : Predicate)
      (rebound : Rebound ρ inner inner₁) :
      Rebound ρ (.selection id inner predicate) (.selection id₁ inner₁ (predicate.map ρ))
  | join (id id₁ : Identity) (kind : JoinKind) {left right left₁ right₁ : Relation}
      (predicate : Predicate) (reboundLeft : Rebound ρ left left₁)
      (reboundRight : Rebound ρ right right₁) :
      Rebound ρ (.join id kind left right predicate)
        (.join id₁ kind left₁ right₁ (predicate.map ρ))

theorem resolve_eq (r : Relation) (x : Attribute) : r.resolve x = (r.carrier x.owner).bind fun o =>
    if o.hasColumn x.name then some { x with owner := o.id } else none := by
  unfold resolve carrier
  rw [occurrence?_eq_find?, occurrence?_eq_find?]
  simp only [Option.orElse_eq_orElse, Option.orElse_eq_or, Option.bind_eq_bind]

theorem resolve_eq_some_iff {r : Relation} {x y : Attribute} : r.resolve x = some y ↔
    ∃ o, r.carrier x.owner = some o ∧ o.hasColumn x.name = true ∧ y = ⟨o.id, x.name⟩ := by
  rw [resolve_eq, Option.bind_eq_some_iff]
  simp [@eq_comm _ y]

namespace Rebound

variable {ρ : Attribute → Attribute} {r s : Relation}

theorem occurrences_eq (h : Rebound ρ r s) : r.occurrences = s.occurrences := by
  induction h with
  | table | aliased => rfl
  | selection _ _ _ _ ih => exact ih
  | join _ _ _ _ _ _ ihl ihr => simp [occurrences, ihl, ihr]

theorem attributes_eq (h : Rebound ρ r s) : r.attributes = s.attributes := by
  induction h with
  | table | aliased => rfl
  | selection _ _ _ _ ih => exact ih
  | join _ _ _ _ _ _ ihl ihr => simp [attributes, ihl, ihr]

theorem alike (h : Rebound ρ r s) {names : Naming} {view : View}
    (same : ∀ x, view.column x = view.column (ρ x)) : Chain.Alike names names view view r s := by
  have hcondition : ∀ p : Predicate, view.condition p = view.condition (p.map ρ) :=
    fun _ => View.condition_map fun x _ => same x
  induction h with
  | table => exact .table rfl
  | aliased id inner => exact Chain.Alike.refl _ _ _
  | selection _ _ p _ ih => exact .selection ih (hcondition p)
  | join _ _ _ p _ _ ihl ihr => exact .join ihl ihr (hcondition p)

end Rebound

end Relation

namespace Naming.Names

variable {names : Naming} {root : Relation}

theorem outside_of_resolve (hn : names.Names root.occurrences) {x y : Attribute}
    (h : root.resolve x = some y) :
    ∃ t, names.outside x.owner = some t ∧ names.nameOf y.owner = some t := by
  obtain ⟨o, ho, -, rfl⟩ := Relation.resolve_eq_some_iff.1 h
  obtain ⟨t, ht⟩ := hn.exists_nameOf (Relation.carrier_mem ho)
  refine ⟨t, ?_, ht⟩
  rw [hn.outside_eq, ho]
  exact ht

theorem resolve_of_outside (hn : names.Names root.occurrences) {x : Attribute} {t : String}
    (h : names.outside x.owner = some t) {o : Relation} (ho : o ∈ root.occurrences)
    (named : names.nameOf o.id = some t) (column : o.hasColumn x.name = true) :
    root.resolve x = some ⟨o.id, x.name⟩ := by
  rw [hn.outside_eq] at h
  obtain ⟨o₁, ho₁, hname⟩ := Option.bind_eq_some_iff.1 h
  obtain rfl := hn.eq_of_id_eq (Relation.carrier_mem ho₁) ho (hn.nameOf_inj hname named)
  exact Relation.resolve_eq_some_iff.2 ⟨o₁, ho₁, column, rfl⟩

theorem column_bound (hn : names.Names root.occurrences) (x : Attribute) :
    names.outside.column x = names.outside.column (root.bound x) := by
  unfold Relation.bound
  cases h : root.resolve x with
  | none => rfl
  | some y =>
    obtain ⟨o, ho, -, rfl⟩ := Relation.resolve_eq_some_iff.1 h
    refine View.column_congr ?_ rfl
    rw [hn.outside_eq, ho, Option.getD_some, hn.outside_of_mem (Relation.carrier_mem ho)]
    rfl

end Naming.Names

namespace Query

/-- Binding an attribute and naming its owner outside all aliases, with notes taken in any order or
by a search, agree on the occurrence, and binding fails only for want of an occurrence or of the
column. A tree has the same statement or error when the attributes outside its aliases are bound
first. -/
theorem resolve_agrees (root : Relation) :
    (∀ names, (Naming.assign root).outcome = .ok names →
      (∀ order, root.Enumerates order →
        names.outsideNoted (.ofOccurrences order root.occurrences) = names.outside) ∧
      ∀ x : Attribute,
        (∀ y, root.resolve x = some y →
          ∃ t, names.outside x.owner = some t ∧ names.nameOf y.owner = some t) ∧
        ∀ t, names.outside x.owner = some t → ∀ o ∈ root.occurrences, names.nameOf o.id = some t →
          o.hasColumn x.name = true → (root.resolve x).isSome = true) ∧
    ∀ s, root.Rebound root.bound s → compile s = compile root := by
  constructor
  · intro names h
    have hn := Naming.names_of_assign h
    refine ⟨fun order => hn.outsideNoted_eq, fun x => ⟨fun y => hn.outside_of_resolve, ?_⟩⟩
    intro t ht o ho named column
    rw [hn.resolve_of_outside ht ho named column]
    rfl
  · intro s hs
    have hlogged := compileLogged_eq_of_alike (Naming.assign_eq_of_occurrences hs.occurrences_eq)
      (fun names h => hs.alike (Naming.names_of_assign h).column_bound) hs.attributes_eq
    exact congrArg Logged.outcome hlogged.symm

/-- Photos with their authors, who are an alias of users, and conditions on the users. -/
def authors (join selection user : Identity) : Relation :=
  let users := Relation.table ⟨0⟩ "users" ["id", "name"]
  let taken := Relation.join join .inner (.table ⟨1⟩ "photos" ["user"]) (.aliased ⟨2⟩ users)
    (.binary .eq (.ref ⟨⟨1⟩, "user"⟩) (.ref ⟨user, "id"⟩))
  .selection selection taken (.binary .lt (.ref ⟨user, "id"⟩) (.literal (.integer 9)))

def authorsQuery : Query where
  columns := [⟨"photos", "user"⟩, ⟨"users", "id"⟩, ⟨"users", "name"⟩]
  source := ⟨"photos", none⟩
  joins := [⟨.inner, ⟨"users", none⟩,
    [.binary .eq (.ref ⟨"photos", "user"⟩) (.ref ⟨"users", "id"⟩)]⟩]
  filter := [.binary .lt (.ref ⟨"users", "id"⟩) (.literal (.integer 9))]

theorem resolve_agrees_authors :
    let root := authors ⟨3⟩ ⟨4⟩ ⟨0⟩
    let x : Attribute := ⟨⟨0⟩, "id"⟩
    ∃ names, (Naming.assign root).outcome = .ok names ∧
      names.outsideNoted (.ofOccurrences (fun o => o.members.reverse) root.occurrences) =
        names.outside ∧
      root.resolve x = some ⟨⟨2⟩, "id"⟩ ∧
      (∃ t, names.outside x.owner = some t ∧ names.nameOf ⟨2⟩ = some t) ∧
      (root.resolve x).isSome = true ∧
      root.Rebound root.bound (authors ⟨5⟩ ⟨6⟩ ⟨2⟩) ∧
      compile (authors ⟨5⟩ ⟨6⟩ ⟨2⟩) = compile root ∧ compile root = .ok authorsQuery := by
  intro root x
  obtain ⟨hnames, hcompile⟩ := resolve_agrees root
  obtain ⟨names, hn⟩ : ∃ names, (Naming.assign root).outcome = .ok names := ⟨_, rfl⟩
  obtain ⟨hnoted, hx⟩ := hnames names hn
  obtain ⟨hbound, hfound⟩ := hx x
  have hresolve : root.resolve x = some ⟨⟨2⟩, "id"⟩ := by decide
  obtain ⟨t, hview, hname⟩ := hbound _ hresolve
  have hsome := hfound t hview (.aliased ⟨2⟩ (.table ⟨0⟩ "users" ["id", "name"])) (by decide)
    hname (by decide)
  have hrebound : root.Rebound root.bound (authors ⟨5⟩ ⟨6⟩ ⟨2⟩) :=
    .selection _ _ _ (.join _ _ _ _ (.table _ _ _) (.aliased _ _))
  exact ⟨names, hn, hnoted _ (Relation.enumerates_reverse root), hresolve, ⟨t, hview, hname⟩,
    hsome, hrebound, hcompile _ hrebound, by rfl⟩

end Query

end RelationalSelect
