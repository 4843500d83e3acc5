import RelationalSelect.Proofs.Sources

set_option autoImplicit false

namespace RelationalSelect

theorem flatMap_modify_perm {α β : Type} {f : α → α} {g : α → List β} {b : β}
    (hfg : ∀ a, (g (f a)).Perm (b :: g a)) {l : List α} {i : Nat} (hi : i < l.length) :
    ((l.modify i f).flatMap g).Perm (b :: l.flatMap g) := by
  induction l generalizing i with
  | nil => simp at hi
  | cons a l ih =>
    cases i with
    | zero =>
      simp only [List.modify_zero_cons, List.flatMap_cons]
      exact (hfg a).append_right _
    | succ i =>
      simp only [List.modify_succ_cons, List.flatMap_cons]
      exact ((ih (by simpa using hi)).append_left _).trans List.perm_middle

namespace Chain

def conjuncts (chain : Chain) : List Condition :=
  chain.conditions ++ chain.joins.flatMap Join.conditions

theorem conjuncts_restrict (chain : Chain) (role : Role) (c : Condition) :
    (chain.restrict role c).conjuncts.Perm (chain.conjuncts ++ [c]) := by
  rcases chain.restrict_cases role c with ⟨-, hne, h⟩ | ⟨-, h⟩ <;> rw [h] <;> unfold conjuncts
  · have hlt : chain.joins.length - 1 < chain.joins.length :=
      Nat.sub_lt (List.length_pos_iff.2 hne) Nat.one_pos
    have hp := flatMap_modify_perm (f := (·.push c)) (g := Join.conditions) (b := c)
      (fun j => List.perm_append_singleton c j.conditions) hlt
    refine (hp.append_left _).trans (List.perm_middle.trans ?_)
    exact (List.perm_append_singleton c _).symm
  · rw [List.append_assoc, List.append_assoc]
    have hc : ([c] ++ chain.joins.flatMap Join.conditions).Perm
        (chain.joins.flatMap Join.conditions ++ [c]) := List.perm_append_comm
    exact hc.append_left _

theorem conjuncts_follow {first : Chain} {kind : JoinKind} {second : Chain} {i : Nat}
    (hi : i < (second.opened kind).length) (c : Condition) :
    (first.follow kind second i c).conjuncts.Perm (first.conjuncts ++ second.conjuncts ++ [c]) := by
  have hp := flatMap_modify_perm (g := Join.conditions) (Join.conditions_receive i c) hi
  have ho : (second.opened kind).flatMap Join.conditions = second.conjuncts := rfl
  rw [ho] at hp
  have hf : (first.follow kind second i c).conjuncts = first.conjuncts ++
      ((second.opened kind).modify i (Join.receive i c)).flatMap Join.conditions := by
    simp [conjuncts, follow]
  rw [hf, List.append_assoc]
  exact (hp.trans (List.perm_append_singleton c _).symm).append_left _

/-- A condition is a predicate, compiled under the names of the place where it stands. -/
def CompiledAt (names : Naming) (view : View) (p : Placed) (c : Condition) : Prop :=
  (names.through p.around view).condition p.predicate = .ok c

theorem Flattens.conjuncts {names : Naming} {r : Relation} {view : View} {role : Role}
    {before : List String} {chain : Chain} (h : Flattens names r view role before chain) :
    ∃ cs, List.Forall₂ (CompiledAt names view) r.placed cs ∧ chain.conjuncts.Perm cs := by
  induction h with
  | table => exact ⟨[], .nil, .refl _⟩
  | @aliased id inner view _ _ chain _ _ _ _ ih =>
    obtain ⟨cs, hcs, hp⟩ := ih
    refine ⟨cs, List.forall₂_map_left_iff.2 (hcs.imp fun p c hc => ?_), hp⟩
    unfold CompiledAt
    rw [names.through_append]
    exact hc
  | selection _ compiled _ ih =>
    obtain ⟨cs, hcs, hp⟩ := ih
    exact ⟨_, List.rel_append hcs (.cons compiled .nil),
      (conjuncts_restrict _ _ _).trans (hp.append_right _)⟩
  | join _ _ _ compiled settles ihl ihr =>
    obtain ⟨cs, hcs, hp⟩ := ihl
    obtain ⟨ds, hds, hq⟩ := ihr
    exact ⟨_, List.rel_append (List.rel_append hcs hds) (.cons compiled .nil),
      (conjuncts_follow settles.lt _).trans ((hp.append hq).append_right _)⟩

end Chain

namespace Query

def conjuncts (q : Query) : List Condition := q.filter ++ q.joins.flatMap Join.conditions

theorem Compiled.conjuncts {root : Relation} {q : Query} {names : Naming} {chain : Chain}
    (h : Compiled root q names chain) :
    ∃ cs, List.Forall₂ (Chain.CompiledAt names names.outside) root.placed cs ∧
      q.conjuncts.Perm cs := by
  have hc : q.conjuncts = chain.conjuncts := by
    unfold Query.conjuncts Chain.conjuncts
    rw [h.filter_eq, h.joins_eq]
  rw [hc]
  exact h.flattens.conjuncts

end Query

/-- The innermost of some aliases that is an occurrence and has the relation inside it. -/
def Relation.innermost (root : Relation) (around : List Relation) (x : Identity) :
    Option Relation :=
  around.find? fun b => root.occurrences.any fun o => o.id == b.id && o.contains x

theorem Naming.Names.find?_shows {names : Naming} {root : Relation}
    (hn : names.Names root.occurrences) (around : List Relation) (x : Identity) :
    around.find? (names.shows x) = root.innermost around x := by
  unfold Relation.innermost
  congr 1
  funext b
  refine Bool.eq_iff_iff.2 (hn.shows_iff.trans ?_)
  simp [Relation.contains_iff]

end RelationalSelect
