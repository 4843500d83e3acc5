import RelationalSelect.Proofs.Flattening

/-!
Trees with a hole, and what filling it with one relation or another changes.

Where no alias is around the hole, names depend on the occurrences of the filling only, and
flattening reaches the hole in a role and after names that the filling does not touch. So two
fillings with the same occurrences, attributes and chains give the same statement.
-/

set_option autoImplicit false

namespace RelationalSelect

theorem Chain.Flattens.unique {names : Naming} {r : Relation} {view : View} {role : Role}
    {before : List String} {chain chain₁ : Chain} (h : Flattens names r view role before chain)
    (h₁ : Flattens names r view role before chain₁) : chain = chain₁ :=
  Except.ok.inj ((ok_of_flattens h).symm.trans (ok_of_flattens h₁))

theorem Naming.assign_eq_of_occurrences {r s : Relation} (h : r.occurrences = s.occurrences) :
    assign r = assign s := by
  unfold assign
  rw [Relation.forOccurrences_eq_foldlM, Relation.forOccurrences_eq_foldlM, h]

inductive Context where
  | hole
  | aliased (id : Identity) (inner : Context)
  | selection (id : Identity) (inner : Context) (predicate : Predicate)
  | joinLeft (id : Identity) (kind : JoinKind) (left : Context) (right : Relation)
      (predicate : Predicate)
  | joinRight (id : Identity) (kind : JoinKind) (left : Relation) (right : Context)
      (predicate : Predicate)

namespace Context

def fill : Context → Relation → Relation
  | .hole, r => r
  | .aliased id inner, r => .aliased id (inner.fill r)
  | .selection id inner predicate, r => .selection id (inner.fill r) predicate
  | .joinLeft id kind left right predicate, r => .join id kind (left.fill r) right predicate
  | .joinRight id kind left right predicate, r => .join id kind left (right.fill r) predicate

def exposed : Context → Bool
  | .hole => true
  | .aliased _ _ => false
  | .selection _ inner _ => inner.exposed
  | .joinLeft _ _ left _ _ => left.exposed
  | .joinRight _ _ _ right _ => right.exposed

variable {r s : Relation}

theorem attributes_fill (h : r.attributes = s.attributes) (ctx : Context) :
    (ctx.fill r).attributes = (ctx.fill s).attributes := by
  induction ctx with
  | hole => exact h
  | aliased _ _ ih | selection _ _ _ ih | joinLeft _ _ _ _ _ ih | joinRight _ _ _ _ _ ih =>
    simp [fill, Relation.attributes, ih]

theorem occurrences_fill (h : r.occurrences = s.occurrences) {ctx : Context}
    (exposed : ctx.exposed = true) : (ctx.fill r).occurrences = (ctx.fill s).occurrences := by
  induction ctx with
  | hole => exact h
  | aliased => contradiction
  | selection _ _ _ ih | joinLeft _ _ _ _ _ ih | joinRight _ _ _ _ _ ih =>
    simp [fill, Relation.occurrences, ih exposed]

theorem baseName_fill (h : r.baseName = .error (.malformedTree .joinWithoutBase)) (ctx : Context) :
    (ctx.fill r).baseName = .error (.malformedTree .joinWithoutBase) := by
  induction ctx with
  | hole => exact h
  | aliased _ _ ih | selection _ _ _ ih => exact ih
  | joinLeft | joinRight => rfl

theorem exposed_of_names (h : r.baseName = .error (.malformedTree .joinWithoutBase)) {ctx : Context}
    (named : ∀ o ∈ (ctx.fill r).occurrences, ∃ base, o.baseName = .ok base) :
    ctx.exposed = true := by
  induction ctx with
  | hole => rfl
  | aliased id inner =>
    obtain ⟨base, hbase⟩ := named _ (List.mem_singleton_self _)
    rw [Relation.baseName, baseName_fill h] at hbase
    contradiction
  | selection _ _ _ ih => exact ih named
  | joinLeft _ _ _ _ _ ih => exact ih fun o ho => named o (List.mem_append_left _ ho)
  | joinRight _ _ _ _ _ ih => exact ih fun o ho => named o (List.mem_append_right _ ho)

/-- Flattening a tree in some role and after some names reaches its hole in a role and after
names. -/
inductive Reaches (names : Naming) : Context → Role → List String → Role → List String → Prop
  | hole {role : Role} {before : List String} : Reaches names .hole role before role before
  | selection {id : Identity} {inner : Context} {predicate : Predicate} {role role₁ : Role}
      {before before₁ : List String} (reaches : Reaches names inner role before role₁ before₁) :
      Reaches names (.selection id inner predicate) role before role₁ before₁
  | joinLeft {id : Identity} {kind : JoinKind} {left : Context} {right : Relation}
      {predicate : Predicate} {role role₁ : Role} {before before₁ : List String}
      (reaches : Reaches names left role before role₁ before₁) :
      Reaches names (.joinLeft id kind left right predicate) role before role₁ before₁
  | joinRight {id : Identity} {kind : JoinKind} {left : Relation} {right : Context}
      {predicate : Predicate} {role role₁ : Role} {before before₁ : List String} {first : Chain}
      (flatLeft : Chain.Flattens names left names.outside role before first)
      (reaches : Reaches names right .joined (before ++ first.entered) role₁ before₁) :
      Reaches names (.joinRight id kind left right predicate) role before role₁ before₁

variable {names : Naming} {role : Role} {before : List String}

theorem Reaches.unique {ctx : Context} {role₁ role₂ : Role} {before₁ before₂ : List String}
    (h₁ : Reaches names ctx role before role₁ before₁)
    (h₂ : Reaches names ctx role before role₂ before₂) : role₁ = role₂ ∧ before₁ = before₂ := by
  induction h₁ with
  | hole =>
    cases h₂
    exact ⟨rfl, rfl⟩
  | selection _ ih =>
    cases h₂ with
    | selection reaches => exact ih reaches
  | joinLeft _ ih =>
    cases h₂ with
    | joinLeft reaches => exact ih reaches
  | joinRight flatLeft _ ih =>
    cases h₂ with
    | joinRight flatLeft₁ reaches =>
      rw [flatLeft₁.unique flatLeft] at reaches
      exact ih reaches

/-- A filling may be exchanged for another one that flattens alike where the hole is reached. -/
theorem flattens_fill {ctx : Context} (exposed : ctx.exposed = true) {chain : Chain}
    (h : Chain.Flattens names (ctx.fill r) names.outside role before chain) :
    ∃ role₁ before₁ chain₁, Reaches names ctx role before role₁ before₁ ∧
      Chain.Flattens names r names.outside role₁ before₁ chain₁ ∧
      ∀ s, Chain.Flattens names s names.outside role₁ before₁ chain₁ →
        Chain.Flattens names (ctx.fill s) names.outside role before chain := by
  induction ctx generalizing role before chain with
  | hole => exact ⟨role, before, chain, .hole, h, fun s hs => hs⟩
  | aliased => contradiction
  | selection id inner predicate ih =>
    cases h with
    | selection flat compiled within =>
      obtain ⟨role₁, before₁, chain₁, hreaches, hflat, hexchange⟩ := ih exposed flat
      exact ⟨role₁, before₁, chain₁, .selection hreaches, hflat,
        fun s hs => .selection (hexchange s hs) compiled within⟩
  | joinLeft id kind left right predicate ih =>
    cases h with
    | join flatLeft flatRight single compiled settles =>
      obtain ⟨role₁, before₁, chain₁, hreaches, hflat, hexchange⟩ := ih exposed flatLeft
      exact ⟨role₁, before₁, chain₁, .joinLeft hreaches, hflat,
        fun s hs => .join (hexchange s hs) flatRight single compiled settles⟩
  | joinRight id kind left right predicate ih =>
    cases h with
    | join flatLeft flatRight single compiled settles =>
      obtain ⟨role₁, before₁, chain₁, hreaches, hflat, hexchange⟩ := ih exposed flatRight
      exact ⟨role₁, before₁, chain₁, .joinRight flatLeft hreaches, hflat,
        fun s hs => .join flatLeft (hexchange s hs) single compiled settles⟩

end Context

namespace Query

variable {ctx : Context} {r s : Relation} {q : Query} {names : Naming} {chain : Chain}

theorem Compiled.exposed (h : Compiled (ctx.fill r) q names chain)
    (join : r.baseName = .error (.malformedTree .joinWithoutBase)) : ctx.exposed = true := by
  refine Context.exposed_of_names join fun o ho => ?_
  obtain ⟨e, -, he⟩ := h.listed.get?_of_mem ho
  exact ⟨e.base, he.base_eq⟩

theorem Compiled.exchange (h : Compiled (ctx.fill r) q names chain)
    (join : r.baseName = .error (.malformedTree .joinWithoutBase))
    (occurrences : r.occurrences = s.occurrences) (attributes : r.attributes = s.attributes)
    (alike : ∀ role before chain₁, ctx.Reaches names .leading [] role before →
      Chain.Flattens names r names.outside role before chain₁ →
      Chain.Flattens names s names.outside role before chain₁) :
    Compiled (ctx.fill s) q names chain := by
  have hexposed := h.exposed join
  have hoccurrences := Context.occurrences_fill occurrences hexposed
  obtain ⟨role, before, chain₁, hreaches, hflat, hexchange⟩ :=
    Context.flattens_fill hexposed h.flattens
  refine ⟨?_, hoccurrences ▸ h.listed, hexchange s (alike role before chain₁ hreaches hflat), ?_,
    h.source_eq, h.joins_eq, h.filter_eq⟩
  · rw [← Naming.assign_eq_of_occurrences hoccurrences]
    exact h.assigned
  · rw [← Context.attributes_fill attributes]
    exact h.columns

end Query

end RelationalSelect
