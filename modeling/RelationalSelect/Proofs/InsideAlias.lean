import RelationalSelect.Proofs.Conjuncts

set_option autoImplicit false

namespace RelationalSelect

namespace Query

structure GoesBy (root : Relation) (names : Naming) (around : List Relation) (x : Attribute)
    (col : Column) : Prop where
  name_eq : col.name = x.name
  within : ∀ a, around.getLast? = some a → x.owner ∈ a.ids → ∃ b,
    root.innermost around x.owner = some b ∧ names.nameOf b.id = some col.table ∧
      (names.nameOf a.id = some col.table ↔ b.id = a.id)

theorem goesBy_of_through {root : Relation} {names : Naming} (hn : names.Names root.occurrences)
    {p : Placed} (hp : p ∈ root.placed) {x : Attribute} {col : Column}
    (ht : names.through p.around names.outside x.owner = some col.table)
    (hc : col.name = x.name) : GoesBy root names p.around x col := by
  refine ⟨hc, fun a ha hx => ?_⟩
  have haround : a ∈ p.around := List.mem_of_getLast? ha
  have hocc : a ∈ root.occurrences := by
    rcases Relation.around_cases hp with h | ⟨front, a₁, h, hocc, -⟩
    · simp [h] at haround
    · obtain rfl : a₁ = a := by simpa [h] using ha
      exact hocc
  rw [names.through_eq, hn.find?_shows] at ht
  cases hb : root.innermost p.around x.owner with
  | none =>
    have hnone := List.find?_eq_none.1 hb a haround
    simp only [List.any_eq_true, not_exists, not_and] at hnone
    exact absurd (by simp [Relation.contains_iff, hx]) (hnone a hocc)
  | some b =>
    rw [hb] at ht
    refine ⟨b, rfl, ht, fun hat => hn.nameOf_inj ht hat, fun hid => ?_⟩
    rw [← hid]
    exact ht

theorem goesBy_of_compile {root : Relation} {q : Query} (h : compile root = .ok q) :
    ∃ names cs, (Naming.assign root).outcome = .ok names ∧ cs.Perm q.conjuncts ∧
      List.Forall₂ (fun p c => p.predicate.Rel (GoesBy root names p.around) c) root.placed cs := by
  obtain ⟨names, chain, h⟩ := compiled_of_ok h
  obtain ⟨cs, hcs, hp⟩ := h.conjuncts
  refine ⟨names, cs, h.assigned, hp.symm, ?_⟩
  have hplaced := (List.forall₂_and_left _ _).2 ⟨fun p hp => hp, hcs⟩
  refine hplaced.imp fun p c ⟨hp, hc⟩ => Expr.rel_of_mapM (fun x col hx => ?_) hc
  obtain ⟨ht, hname⟩ := View.column_eq_ok hx
  exact goesBy_of_through h.listed hp ht hname

/-- A user and one of its aliases, joined: the alias is also wrapped inside the other one. -/
def sharedAlias : Relation :=
  let own := Relation.selection ⟨1⟩ (.table ⟨0⟩ "users" ["id"])
    (.binary .eq (.ref ⟨⟨0⟩, "id"⟩) (.literal (.integer 1)))
  let inner := Relation.aliased ⟨2⟩ own
  .join ⟨4⟩ .inner inner (.aliased ⟨3⟩ inner) (.literal (.boolean true))

def sharedAliasQuery : Query where
  columns := [⟨"users", "id"⟩, ⟨"users_2", "id"⟩]
  source := ⟨"users", none⟩
  joins := [⟨.inner, ⟨"users", some "users_2"⟩,
    [.literal (.boolean true), .binary .eq (.ref ⟨"users", "id"⟩) (.literal (.integer 1))]⟩]
  filter := [.binary .eq (.ref ⟨"users", "id"⟩) (.literal (.integer 1))]

theorem goesBy_sharedAlias : compile sharedAlias = .ok sharedAliasQuery ∧
    ∃ names cs, (Naming.assign sharedAlias).outcome = .ok names ∧
      cs.Perm sharedAliasQuery.conjuncts ∧
      List.Forall₂ (fun p c => p.predicate.Rel (GoesBy sharedAlias names p.around) c)
        sharedAlias.placed cs := by
  have hq : compile sharedAlias = .ok sharedAliasQuery := by rfl
  exact ⟨hq, goesBy_of_compile hq⟩

/-- No statement condition names the outer of the two aliases, although a predicate stands in it. -/
theorem not_goesBy_outermost : compile sharedAlias = .ok sharedAliasQuery ∧
    ¬ ∃ names cs, (Naming.assign sharedAlias).outcome = .ok names ∧
      cs.Perm sharedAliasQuery.conjuncts ∧ List.Forall₂
        (fun p c => p.predicate.Rel (fun x col => ∀ a, p.around.getLast? = some a →
          x.owner ∈ a.ids → names.nameOf a.id = some col.table) c) sharedAlias.placed cs := by
  refine ⟨by rfl, ?_⟩
  rintro ⟨names, cs, hn, hp, hf⟩
  have hname : (Naming.assign sharedAlias).outcome.map (Naming.nameOf · ⟨3⟩) =
      .ok (some "users_2") := by rfl
  rw [hn] at hname
  replace hname : names.nameOf ⟨3⟩ = some "users_2" := Except.ok.inj hname
  cases hf with
  | cons _ hf =>
  cases hf with
  | @cons _ c _ cs hc _ =>
  have hmem : c ∈ sharedAliasQuery.conjuncts :=
    hp.mem_iff.1 (List.mem_cons_of_mem _ List.mem_cons_self)
  -- the predicate inside both aliases should name the outer one, but no conjunct does
  have hnone : ∀ c ∈ sharedAliasQuery.conjuncts, ∀ col ∈ c.refs, col.table ≠ "users_2" := by decide
  obtain ⟨col, cols, hcol, -, hrefs⟩ := List.forall₂_cons_left_iff.1 hc.refs
  have htable := hcol _ rfl (by decide)
  refine hnone c hmem col (by simp [hrefs]) (Option.some.inj ?_)
  exact htable.symm.trans hname

end Query

end RelationalSelect
