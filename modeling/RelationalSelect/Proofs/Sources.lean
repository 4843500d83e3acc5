import RelationalSelect.Proofs.Flattening

set_option autoImplicit false

namespace RelationalSelect

namespace Relation

/-- The kinds of the joins in the order of their clauses. -/
def joinKinds : Relation → List JoinKind
  | .table _ _ _ => []
  | .aliased _ inner | .selection _ inner _ => inner.joinKinds
  | .join _ kind left right _ => left.joinKinds ++ kind :: right.joinKinds

theorem baseName_of_occurrences {r o : Relation} (h : r.occurrences = [o]) :
    r.baseName = o.baseName := by
  induction r with
  | table | aliased =>
    rw [← (List.cons.inj h).1]
  | selection _ _ _ ih => exact ih h
  | join _ _ left right =>
    have hl := List.length_pos_iff.2 left.occurrences_ne_nil
    have hr := List.length_pos_iff.2 right.occurrences_ne_nil
    have hlen := congrArg List.length h
    simp only [occurrences, List.length_append, List.length_singleton] at hlen
    omega

end Relation

namespace Chain

def SourceOf (view : View) (o : Relation) (s : Source) : Prop :=
  ∃ base name, o.baseName = .ok base ∧ view o.id = some name ∧ s = Source.named base name

@[simp] theorem sources_restrict (chain : Chain) (role : Role) (c : Condition) :
    (chain.restrict role c).sources = chain.sources := by
  simp [sources, map_source_restrict]

theorem map_modify {α β : Type} {f : α → β} {g : α → α} (hfg : ∀ a, f (g a) = f a) (l : List α)
    (i : Nat) : (l.modify i g).map f = l.map f := by
  apply List.ext_getElem?
  intro k
  simp only [List.getElem?_map, List.getElem?_modify]
  cases l[k]? with
  | none => rfl
  | some a =>
    by_cases hk : i = k
    · simp [hk, hfg]
    · simp [hk]

@[simp] theorem sources_follow (first : Chain) (kind : JoinKind) (second : Chain) (i : Nat)
    (c : Condition) : (first.follow kind second i c).sources = first.sources ++ second.sources := by
  simp [sources, follow, opened, map_modify (Join.source_receive i c)]

variable {names : Naming} {r : Relation} {view : View} {role : Role} {before : List String}
  {chain : Chain}

theorem Flattens.sources (h : Flattens names r view role before chain) :
    List.Forall₂ (SourceOf view) r.occurrences chain.sources := by
  induction h with
  | table named => exact .cons ⟨_, _, rfl, named, rfl⟩ .nil
  | @aliased id inner view role before chain display named flat single ih =>
    simp only [Chain.sources, single, List.map_nil] at ih ⊢
    obtain ⟨o, os, ⟨base, name, hb, -, hs⟩, hos, hocc⟩ := List.forall₂_cons_right_iff.1 ih
    rw [List.forall₂_nil_right_iff.1 hos] at hocc
    have hbase : inner.baseName = .ok base := by rw [Relation.baseName_of_occurrences hocc, hb]
    refine .cons ⟨base, display, hbase, named, ?_⟩ .nil
    rw [hs]
    rfl
  | selection _ _ _ ih => simpa [Relation.occurrences] using ih
  | join _ _ _ _ _ ihl ihr =>
    rw [sources_follow]
    exact List.rel_append ihl ihr

theorem Flattens.kinds (h : Flattens names r view role before chain) :
    chain.joins.map Join.kind = r.joinKinds := by
  induction h with
  | table => rfl
  | aliased _ _ _ ih => exact ih
  | @selection id inner predicate view role before chain c _ _ _ ih =>
    rcases chain.restrict_cases role c with ⟨-, -, h⟩ | ⟨-, h⟩ <;> rw [h]
    · exact (map_modify (g := (·.push c)) (fun _ => rfl) chain.joins _).trans ih
    · exact ih
  | join _ _ _ _ _ ihl ihr =>
    simp [follow, opened, Relation.joinKinds, map_modify (Join.kind_receive _ _), ihl, ihr]

end Chain

namespace Query

variable {root : Relation} {q : Query} {names : Naming} {chain : Chain}

theorem Compiled.sources_listed (h : Compiled root q names chain) :
    List.Forall₂ (fun o s => ∃ base, o.baseName = .ok base ∧ names.nameOf o.id = some s.name ∧
      s = Source.named base s.name) root.occurrences q.sources := by
  have hf := (List.forall₂_and_left _ _).2 ⟨fun _ ho => ho, h.flattens.sources⟩
  rw [h.sources_eq]
  refine hf.imp fun o s ⟨ho, base, name, hb, hv, hs⟩ => ⟨base, hb, ?_, ?_⟩
  · rw [← h.listed.outside_of_mem ho, hv, hs, Source.name_named]
  · rw [hs, Source.name_named]

theorem Compiled.map_name (h : Compiled root q names chain) :
    q.sources.map Source.name = names.toStrings := by
  have hs := h.sources_listed
  have ht := h.listed.toStrings_eq
  refine List.ext_getElem ?_ fun i hi hi₁ => ?_
  · rw [List.length_map, ← hs.length_eq, ht.length_eq]
  · have hlt : i < q.sources.length := by simpa using hi
    have hlt₁ : i < root.occurrences.length := by rw [hs.length_eq]; exact hlt
    obtain ⟨_, -, hn, -⟩ := hs.get hlt₁ hlt
    have hn₁ := ht.get hlt₁ hi₁
    rw [hn] at hn₁
    simpa using hn₁

theorem Compiled.names_nodup (h : Compiled root q names chain) :
    (q.sources.map Source.name).Nodup := h.map_name ▸ h.listed.distinct

theorem Compiled.name_at (h : Compiled root q names chain) {k : Nat} {o : Relation}
    (ho : root.occurrences[k]? = some o) : names.nameOf o.id = q.sources[k]?.map Source.name := by
  obtain ⟨hk, hget⟩ := List.getElem?_eq_some_iff.1 ho
  have hk₁ : k < q.sources.length := by rw [← h.sources_listed.length_eq]; exact hk
  obtain ⟨_, -, hn, -⟩ := h.sources_listed.get hk hk₁
  simp only [List.get_eq_getElem, hget] at hn
  rw [hn, List.getElem?_eq_getElem hk₁]
  rfl

end Query

end RelationalSelect
