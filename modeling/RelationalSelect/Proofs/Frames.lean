import Mathlib.Data.List.Basic
import RelationalSelect.Proofs.Conjuncts
import RelationalSelect.Proofs.Rows
import RelationalSelect.Proofs.Scope

set_option autoImplicit false

namespace RelationalSelect

variable {V : Type}

theorem Expr.value_congr {α : Type} (I : Interpretation V) {f g : α → V} {e : Expr α}
    (h : ∀ a ∈ e.refs, f a = g a) : e.value I f = e.value I g := by
  induction e with
  | ref a => exact h a (List.mem_singleton_self a)
  | literal v => rfl
  | binary op l r ihl ihr =>
    have hl := ihl fun a ha => h a (List.mem_append_left _ ha)
    have hr := ihr fun a ha => h a (List.mem_append_right _ ha)
    rw [value, value, hl, hr]

theorem Interpretation.rowOf_append {κ : Type} [BEq κ] [LawfulBEq κ] (I : Interpretation V) {k : κ}
    {rows : List (κ × Row V)} (hk : k ∈ rows.map Prod.fst) (more : List (κ × Row V)) :
    I.rowOf k (rows ++ more) = I.rowOf k rows := by
  unfold rowOf
  rw [List.lookup_append]
  cases hl : rows.lookup k with
  | some row => rfl
  | none =>
    obtain ⟨e, he, rfl⟩ := List.mem_map.1 hk
    have hne := List.lookup_eq_none_iff.1 hl e he
    simp at hne

theorem Condition.holds_append (I : Interpretation V) {f : Frame V} {c : Condition}
    (hc : c.within (f.map Prod.fst) = true) (g : Frame V) :
    Condition.holds I (f ++ g) c = Condition.holds I f c := by
  unfold Condition.holds
  congr 1
  apply Expr.value_congr I
  intro col hcol
  have ht := (Condition.within_iff c _).1 hc col.table (List.mem_map_of_mem hcol)
  unfold Frame.read
  rw [I.rowOf_append ht]

theorem keys_of_extendBy {κ : Type} {k : κ} {table : List (Row V)} {rows g : List (κ × Row V)}
    (h : g ∈ extendBy k table rows) : g.map Prod.fst = rows.map Prod.fst ++ [k] := by
  obtain ⟨row, -, rfl⟩ := List.mem_map.1 h
  simp

theorem flatMap_filter {α β : Type} (p : α → Bool) (g : α → List β) (l : List α) :
    (l.filter p).flatMap g = l.flatMap fun a => if p a then g a else [] := by
  induction l with
  | nil => rfl
  | cons a l ih =>
    cases h : p a with
    | true => simp [h, ih]
    | false => simp [h, ih]

def product {κ : Type} (tables : List (κ × List (Row V))) : List (List (κ × Row V)) :=
  tables.foldl (fun found t => found.flatMap (extendBy t.1 t.2)) [[]]

namespace Join

variable (I : Interpretation V) (db : Database V)

theorem extend_of_inner {j : Join} (h : j.kind = .inner) (f : Frame V) :
    j.extend I db f = j.found I db f := by
  unfold extend
  rw [h]

theorem inScope_iff (visible : List String) (joins : List Join) :
    inScope visible joins = true ↔ ∀ (i : Nat) (j : Join), joins[i]? = some j →
      ∀ c ∈ j.conditions,
        c.within (visible ++ (joins.take (i + 1)).map (·.source.name)) = true := by
  induction joins generalizing visible with
  | nil => simp [inScope]
  | cons j rest ih =>
    simp only [inScope, Bool.and_eq_true, List.all_eq_true, ih]
    constructor
    · rintro ⟨hj, hrest⟩ i j₁ hi c hc
      cases i with
      | zero =>
        cases hi
        simpa using hj c hc
      | succ i => simpa using hrest i j₁ hi c hc
    · intro h
      refine ⟨fun c hc => by simpa using h 0 j rfl c hc, fun i j₁ hi c hc => ?_⟩
      simpa using h (i + 1) j₁ hi c hc

/-- Conditions that are in scope may as well be tested after the table of the clause is joined. -/
theorem filter_found {j : Join} {visible : List String} {tested : List Condition} {f : Frame V}
    (hf : f.map Prod.fst = visible) (ht : ∀ c ∈ tested, c.within visible = true) :
    (if tested.all (Condition.holds I f) then j.found I db f else []) =
      (extendBy j.source.name (db j.source.table) f).filter fun g =>
        (tested ++ j.conditions).all (Condition.holds I g) := by
  have hkeep : ∀ g ∈ extendBy j.source.name (db j.source.table) f,
      tested.all (Condition.holds I g) = tested.all (Condition.holds I f) := by
    intro g hg
    obtain ⟨row, -, rfl⟩ := List.mem_map.1 hg
    refine Bool.eq_iff_iff.2 ?_
    simp only [List.all_eq_true]
    apply forall₂_congr
    intro c hc
    rw [Condition.holds_append I (hf ▸ ht c hc)]
  cases hall : tested.all (Condition.holds I f) with
  | true =>
    apply List.filter_congr
    intro g hg
    rw [List.all_append, hkeep g hg, hall, Bool.true_and]
  | false =>
    have hnone : (extendBy j.source.name (db j.source.table) f).filter (fun g =>
        (tested ++ j.conditions).all (Condition.holds I g)) = [] := by
      apply List.filter_eq_nil_iff.2
      intro g hg
      rw [List.all_append, hkeep g hg, hall]
      simp
    exact hnone.symm

/-- Testing every inner join in its clause comes to testing all conditions at the end. -/
theorem foldl_extend_of_inner {joins : List Join} (inner : ∀ j ∈ joins, j.kind = .inner)
    {visible : List String} (scope : inScope visible joins = true) {all : List (Frame V)}
    (keys : ∀ f ∈ all, f.map Prod.fst = visible) {tested : List Condition}
    (within : ∀ c ∈ tested, c.within visible = true) :
    joins.foldl (fun frames j => frames.flatMap (j.extend I db))
        (all.filter fun f => tested.all (Condition.holds I f)) =
      (joins.foldl (fun frames j => frames.flatMap
          (extendBy j.source.name (db j.source.table))) all).filter fun f =>
        (tested ++ joins.flatMap Join.conditions).all (Condition.holds I f) := by
  -- a clause moves its conditions to those already tested, so both sides vary with the frames
  induction joins generalizing visible all tested with
  | nil => simp
  | cons j rest ih =>
    simp only [inScope, Bool.and_eq_true, List.all_eq_true] at scope
    have hstep : (all.filter fun f => tested.all (Condition.holds I f)).flatMap (j.extend I db) =
        (all.flatMap (extendBy j.source.name (db j.source.table))).filter fun f =>
          (tested ++ j.conditions).all (Condition.holds I f) := by
      rw [List.filter_flatMap, flatMap_filter]
      apply List.flatMap_congr
      intro f hf
      rw [funext (extend_of_inner I db (inner j List.mem_cons_self))]
      exact filter_found I db (keys f hf) within
    simp only [List.foldl_cons, List.flatMap_cons]
    rw [hstep, ← List.append_assoc]
    refine ih (fun j₁ hj₁ => inner j₁ (List.mem_cons_of_mem _ hj₁)) scope.2 ?_ ?_
    · intro g hg
      obtain ⟨f, hf, hg⟩ := List.mem_flatMap.1 hg
      rw [keys_of_extendBy hg, keys f hf]
    · intro c hc
      cases List.mem_append.1 hc with
      | inl hc => exact Condition.within_mono (within c hc) (List.subset_append_left _ _)
      | inr hc => exact scope.1 c hc

end Join

namespace Query

variable {root : Relation} {q : Query} {names : Naming} {chain : Chain}

theorem frames_of_inner (I : Interpretation V) (db : Database V)
    (inner : ∀ j ∈ q.joins, j.kind = .inner)
    (scope : Join.inScope [q.source.name] q.joins = true) :
    q.frames I db = (product (q.sources.map fun s => (s.name, db s.table))).filter fun f =>
      q.conjuncts.all (Condition.holds I f) := by
  have hkeys : ∀ f ∈ extendBy q.source.name (db q.source.table) ([] : Frame V),
      f.map Prod.fst = [q.source.name] := fun f hf => keys_of_extendBy hf
  have hnone : ∀ c ∈ ([] : List Condition), c.within [q.source.name] = true := by simp
  have hfold := Join.foldl_extend_of_inner I db inner scope hkeys hnone
  have hproduct : product (q.sources.map fun s => (s.name, db s.table)) =
      q.joins.foldl (fun frames j => frames.flatMap (extendBy j.source.name (db j.source.table)))
        (extendBy q.source.name (db q.source.table) []) := by
    simp [product, sources, List.foldl_map]
  unfold frames joined
  simp only [List.all_nil, List.filter_true, List.nil_append] at hfold
  rw [hfold, List.filter_filter, hproduct]
  simp only [conjuncts, List.all_append]

theorem Compiled.within_sources (h : Compiled root q names chain) {c : Condition}
    (hc : c ∈ q.conjuncts) : c.within (q.sources.map Source.name) = true := by
  obtain ⟨cs, hcs, hp⟩ := h.conjuncts
  obtain ⟨p, -, hcp⟩ := exists_of_forall₂ hcs (hp.mem_iff.1 hc)
  rw [Condition.within_iff, h.map_name]
  intro t ht
  obtain ⟨col, hcol, rfl⟩ := List.mem_map.1 ht
  obtain ⟨x, -, hx, -⟩ := exists_of_forall₂ (View.rel_of_condition hcp).refs hcol
  rw [names.through_eq] at hx
  split at hx
  · exact Naming.mem_toStrings hx
  · exact Naming.mem_toStrings_of_outside hx

theorem OnInScope.inScope (scope : q.OnInScope) : Join.inScope [q.source.name] q.joins = true := by
  apply (Join.inScope_iff _ _).2
  intro i j hj c hc
  rw [Condition.within_iff]
  intro t ht
  simpa [sources, Function.comp_def] using scope i j hj c hc t ht

theorem Compiled.wellScoped (h : Compiled root q names chain) (scope : q.OnInScope) :
    q.wellScoped = true := by
  simp only [Query.wellScoped, Bool.and_eq_true, decide_eq_true_eq]
  refine ⟨⟨⟨h.names_nodup, scope.inScope⟩, ?_⟩, ?_⟩
  · apply List.all_eq_true.2
    intro c hc
    exact h.within_sources (List.mem_append_left _ hc)
  · apply List.all_eq_true.2
    intro col hcol
    obtain ⟨x, -, hx⟩ := exists_of_forall₂ (forall₂_of_mapM h.columns) hcol
    rw [h.map_name]
    simpa using Naming.mem_toStrings_of_outside (View.column_eq_ok hx).1

end Query

end RelationalSelect
