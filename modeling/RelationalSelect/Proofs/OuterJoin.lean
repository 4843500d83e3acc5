import Mathlib.Data.List.Perm.Basic
import RelationalSelect.Proofs.Filters
import RelationalSelect.Proofs.Meaning

set_option autoImplicit false

namespace RelationalSelect

variable {V : Type}

namespace Join

variable {I : Interpretation V} {db : Database V}

theorem cases_of_mem_extend {j : Join} {f g : Frame V} (h : g ∈ j.extend I db f) :
    (∃ row, g = f ++ [(j.source.name, row)]) ∧
      (j.kind = .inner → ∀ c ∈ j.conditions, Condition.holds I g c = true) := by
  have hfound : ∀ g ∈ j.found I db f, (∃ row, g = f ++ [(j.source.name, row)]) ∧
      ∀ c ∈ j.conditions, Condition.holds I g c = true := by
    intro g hg
    obtain ⟨hg, hall⟩ := List.mem_filter.1 hg
    obtain ⟨row, -, rfl⟩ := List.mem_map.1 hg
    exact ⟨⟨row, rfl⟩, List.all_eq_true.1 hall⟩
  unfold extend at h
  split at h
  · next hk _ =>
    rw [List.mem_singleton.1 h]
    refine ⟨⟨I.nullRow, rfl⟩, fun hinner => ?_⟩
    rw [hk] at hinner
    contradiction
  · obtain ⟨hrow, hconditions⟩ := hfound g h
    exact ⟨hrow, fun _ => hconditions⟩

/-- The conditions that have been tested by a frame: those before it and those of inner joins. -/
structure Tested (I : Interpretation V) (visible : List String) (conditions : List Condition)
    (f : Frame V) : Prop where
  keys : f.map Prod.fst = visible
  within : ∀ c ∈ conditions, c.within visible = true
  holds : ∀ c ∈ conditions, Condition.holds I f c = true

def conditionsOf (kind : JoinKind) (j : Join) : List Condition :=
  if j.kind = kind then j.conditions else []

theorem mem_conditionsOf {kind : JoinKind} {j : Join} {c : Condition} :
    c ∈ j.conditionsOf kind ↔ j.kind = kind ∧ c ∈ j.conditions := by
  unfold conditionsOf
  split
  · next hk => simp [hk]
  · next hk => simp [hk]

theorem Tested.extend {j : Join} {visible : List String} {conditions : List Condition}
    {f g : Frame V} (ht : Tested I visible conditions f)
    (scope : ∀ c ∈ j.conditions, c.within (visible ++ [j.source.name]) = true)
    (hg : g ∈ j.extend I db f) :
    Tested I (visible ++ [j.source.name]) (conditions ++ j.conditionsOf .inner) g := by
  obtain ⟨⟨row, rfl⟩, hinner⟩ := cases_of_mem_extend hg
  constructor
  · simp [ht.keys]
  · intro c hc
    cases List.mem_append.1 hc with
    | inl hc => exact Condition.within_mono (ht.within c hc) (List.subset_append_left _ _)
    | inr hc => exact scope c (mem_conditionsOf.1 hc).2
  · intro c hc
    cases List.mem_append.1 hc with
    | inl hc =>
      rw [Condition.holds_append I (ht.keys ▸ ht.within c hc)]
      exact ht.holds c hc
    | inr hc =>
      obtain ⟨hk, hc⟩ := mem_conditionsOf.1 hc
      exact hinner hk c hc

theorem Tested.foldl {joins : List Join} {visible : List String} {conditions : List Condition}
    {all : List (Frame V)} (scope : inScope visible joins = true)
    (ht : ∀ f ∈ all, Tested I visible conditions f) :
    ∀ f ∈ joins.foldl (fun frames j => frames.flatMap (j.extend I db)) all,
      Tested I (visible ++ joins.map (·.source.name))
        (conditions ++ joins.flatMap (conditionsOf .inner)) f := by
  induction joins generalizing visible conditions all with
  | nil => simpa using ht
  | cons j rest ih =>
    simp only [inScope, Bool.and_eq_true, List.all_eq_true] at scope
    have hstep : ∀ g ∈ all.flatMap (j.extend I db),
        Tested I (visible ++ [j.source.name]) (conditions ++ j.conditionsOf .inner) g := by
      intro g hg
      obtain ⟨f, hf, hg⟩ := List.mem_flatMap.1 hg
      exact (ht f hf).extend scope.1 hg
    simpa using ih scope.2 hstep

end Join

namespace Query

variable {root : Relation} {q : Query} {names : Naming} {chain : Chain}

/-- The conditions of the clauses of a kind. WHERE counts among the inner joins. -/
def conditionsOf : JoinKind → Query → List Condition
  | .inner, q => q.filter ++ q.joins.flatMap (Join.conditionsOf .inner)
  | .leftOuter, q => q.joins.flatMap (Join.conditionsOf .leftOuter)

theorem tested_of_mem_frames {I : Interpretation V} {db : Database V}
    (scope : Join.inScope [q.source.name] q.joins = true) {f : Frame V} (hf : f ∈ q.frames I db) :
    f.map Prod.fst = q.sources.map Source.name ∧
      ∀ c ∈ q.conditionsOf .inner, Condition.holds I f c = true := by
  obtain ⟨hf, hfilter⟩ := List.mem_filter.1 hf
  have hfirst : ∀ f ∈ extendBy q.source.name (db q.source.table) ([] : Frame V),
      Join.Tested I [q.source.name] [] f :=
    fun f hf => ⟨keys_of_extendBy hf, by simp, by simp⟩
  have ht := Join.Tested.foldl scope hfirst f hf
  constructor
  · simpa [sources, Function.comp_def] using ht.keys
  · intro c hc
    cases List.mem_append.1 hc with
    | inl hc => exact List.all_eq_true.1 hfilter c hc
    | inr hc => exact ht.holds c (by simpa using hc)

end Query

def Relation.keyed (root : Relation) (f : Frame V) : List (Identity × Row V) :=
  (root.occurrences.map Relation.id).zip (f.map Prod.snd)

theorem Relation.keys_of_keyed {root : Relation} {f : Frame V}
    (h : f.length = root.occurrences.length) :
    (root.keyed f).map Prod.fst = root.occurrences.map Relation.id := by
  unfold keyed
  exact List.map_fst_zip (by simp [h])

/-- A predicate is true of all rows that a statement returns. -/
def Query.Enforces (q : Query) (root : Relation) (p : Predicate) : Prop :=
  ∀ (V : Type) (I : Interpretation V) (db : Database V), ∀ f ∈ q.frames I db,
    Placed.holds I root (root.keyed f) ⟨[], p⟩ = true

namespace Query

variable {root : Relation} {q : Query} {names : Naming} {chain : Chain}

theorem Compiled.rekeyed_keyed (h : Compiled root q names chain) {f : Frame V}
    (hf : f.map Prod.fst = q.sources.map Source.name) :
    rekeyed names.key (root.keyed f) = f := by
  have hkeys : (root.occurrences.map Relation.id).map names.key = f.map Prod.fst := by
    rw [hf, List.map_map]
    exact map_eq_map_of_forall₂ (fun o s ⟨_, _, hn, _⟩ => Naming.key_of_nameOf hn) h.sources_listed
  calc rekeyed names.key (root.keyed f)
      = ((root.occurrences.map Relation.id).map names.key).zip (f.map Prod.snd) := by
        rw [List.zip_map_left]
        rfl
    _ = f := by rw [hkeys, ← List.unzip_fst, ← List.unzip_snd, List.zip_unzip]

theorem Compiled.tests (h : Compiled root q names chain) (direct : root.directAliases = true) :
    ∀ e ∈ root.filters root .leading, ∃ c, names.outside.condition e.1 = .ok c ∧
      chain.Tests e.2 c :=
  h.flattens.tests h.listed direct ⟨[], [], by simp, by simp⟩

theorem Compiled.holds_keyed (h : Compiled root q names chain) (apart : root.AliasesApart)
    (I : Interpretation V) {f : Frame V} (hf : f.map Prod.fst = q.sources.map Source.name)
    {p : Predicate} (hp : ⟨[], p⟩ ∈ root.placed) {c : Condition}
    (hc : names.outside.condition p = .ok c) :
    Placed.holds I root (root.keyed f) ⟨[], p⟩ = Condition.holds I f c := by
  have hlength : f.length = root.occurrences.length := by
    have hlen := congrArg List.length hf
    rw [List.length_map, List.length_map, ← h.sources_listed.length_eq] at hlen
    exact hlen
  have heq := h.holds_eq apart I (Relation.keys_of_keyed hlength) hp hc
  rw [h.rekeyed_keyed hf] at heq
  exact heq.symm

theorem Compiled.mem_conditionsOf (h : Compiled root q names chain) {kind : JoinKind}
    {c : Condition} (ht : chain.Tests kind c) : c ∈ q.conditionsOf kind := by
  cases kind with
  | inner =>
    apply List.mem_append.2
    rcases ht with ⟨-, hc⟩ | ⟨j, hj, hk, hc⟩
    · exact .inl (h.filter_eq ▸ hc)
    · exact .inr (List.mem_flatMap.2 ⟨j, h.joins_eq ▸ hj, Join.mem_conditionsOf.2 ⟨hk, hc⟩⟩)
  | leftOuter =>
    rcases ht with ⟨hk, -⟩ | ⟨j, hj, hk, hc⟩
    · contradiction
    · exact List.mem_flatMap.2 ⟨j, h.joins_eq ▸ hj, Join.mem_conditionsOf.2 ⟨hk, hc⟩⟩

theorem Compiled.enforces (h : Compiled root q names chain) (direct : root.directAliases = true)
    {p : Predicate} (hp : (p, .inner) ∈ root.filters root .leading) : q.Enforces root p := by
  intro V I db f hf
  have apart := Relation.aliasesApart_of_direct direct
  obtain ⟨hkeys, hholds⟩ := tested_of_mem_frames (h.onInScope apart).inScope hf
  obtain ⟨c, hc, ht⟩ := h.tests direct _ hp
  rw [h.holds_keyed apart I hkeys (Relation.mem_placed_of_mem_filters hp) hc]
  exact hholds c (h.mem_conditionsOf ht)

end Query

/-- An expression with NULL for each of its references. -/
def Expr.blanked {α : Type} : Expr α → Expr Empty
  | .ref _ => .literal .null
  | .literal v => .literal v
  | .binary op l r => .binary op l.blanked r.blanked

theorem Expr.Rel.blanked_eq {α β : Type} {R : α → β → Prop} {p : Expr α} {c : Expr β}
    (h : p.Rel R c) : c.blanked = p.blanked := by
  induction h with
  | ref h => rfl
  | literal v => rfl
  | binary op _ _ ihl ihr => rw [blanked, blanked, ihl, ihr]

/-- Every expression is its own value, and all values but one are true. -/
def Interpretation.refuting (e : Expr Empty) : Interpretation (Expr Empty) where
  literal := .literal
  operator := .binary
  holds v := v ≠ e

def blankDatabase : Database (Expr Empty) := fun _ => [fun _ => .literal .null]

def Frame.Blank (f : Frame (Expr Empty)) : Prop := ∀ e ∈ f, e.2 = fun _ => .literal .null

section Blank

variable {e : Expr Empty} {f : Frame (Expr Empty)}

theorem Frame.Blank.read_eq (hf : f.Blank) (c : Column) :
    Frame.read (.refuting e) f c = .literal .null := by
  unfold Frame.read Interpretation.rowOf
  cases hl : f.lookup c.table with
  | none => rfl
  | some row =>
    obtain ⟨front, back, hsplit, -⟩ := List.lookup_eq_some_iff.1 hl
    have hrow := hf (c.table, row) (by simp [hsplit])
    exact congrFun hrow c.name

theorem Frame.Blank.value_eq (hf : f.Blank) (c : Condition) :
    c.value (.refuting e) (Frame.read (.refuting e) f) = c.blanked := by
  induction c with
  | ref col => exact hf.read_eq col
  | literal v => rfl
  | binary op l r ihl ihr =>
    rw [Expr.value, ihl, ihr]
    rfl

theorem Frame.Blank.holds_iff (hf : f.Blank) (c : Condition) :
    Condition.holds (.refuting e) f c = true ↔ c.blanked ≠ e := by
  unfold Condition.holds
  rw [hf.value_eq]
  exact decide_eq_true_iff

theorem Join.exists_extend {j : Join} (hf : f.Blank)
    (hj : ∀ c ∈ j.conditionsOf .inner, c.blanked ≠ e) :
    ∃ g ∈ j.extend (.refuting e) blankDatabase f, g.Blank := by
  have hblank : Frame.Blank (f ++ [(j.source.name, fun _ => .literal .null)]) := by
    intro r hr
    cases List.mem_append.1 hr with
    | inl hr => exact hf r hr
    | inr hr => rw [List.mem_singleton.1 hr]
  generalize hg : f ++ [(j.source.name, fun _ => .literal .null)] = g at hblank
  have hfound : j.found (.refuting e) blankDatabase f =
      [g].filter fun g => j.conditions.all (Condition.holds (.refuting e) g) := by
    rw [← hg]
    rfl
  refine ⟨g, ?_, hblank⟩
  unfold extend
  cases hall : j.conditions.all (Condition.holds (.refuting e) g) with
  | true =>
    rw [hfound, List.filter_singleton, hall]
    cases j.kind <;> exact List.mem_singleton_self g
  | false =>
    rw [hfound, List.filter_singleton, hall]
    cases hk : j.kind with
    | inner =>
      refine absurd (List.all_eq_true.2 fun c hc => ?_) (Bool.eq_false_iff.1 hall)
      exact (hblank.holds_iff c).2 (hj c (mem_conditionsOf.2 ⟨hk, hc⟩))
    | leftOuter =>
      rw [← hg]
      exact List.mem_singleton_self _

theorem Join.exists_foldl {joins : List Join} {all : List (Frame (Expr Empty))}
    (hjoins : ∀ c ∈ joins.flatMap (conditionsOf .inner), c.blanked ≠ e) (h : ∃ f ∈ all, f.Blank) :
    ∃ f ∈ joins.foldl (fun frames j => frames.flatMap (j.extend (.refuting e) blankDatabase)) all,
      f.Blank := by
  induction joins generalizing all with
  | nil => exact h
  | cons j rest ih =>
    simp only [List.flatMap_cons, List.mem_append] at hjoins
    obtain ⟨f, hf, hblank⟩ := h
    obtain ⟨g, hg, hgblank⟩ := exists_extend hblank fun c hc => hjoins c (.inl hc)
    exact ih (fun c hc => hjoins c (.inr hc)) ⟨g, List.mem_flatMap.2 ⟨f, hf, hg⟩, hgblank⟩

theorem Query.exists_frame {q : Query} (hq : ∀ c ∈ q.conditionsOf .inner, c.blanked ≠ e) :
    ∃ f ∈ q.frames (.refuting e) blankDatabase, f.Blank := by
  have hfirst : ∃ f ∈ extendBy q.source.name (blankDatabase q.source.table) [], Frame.Blank f :=
    ⟨_, List.mem_singleton_self _, by simp [Frame.Blank]⟩
  have hjoins : ∀ c ∈ q.joins.flatMap (Join.conditionsOf .inner), c.blanked ≠ e :=
    fun c hc => hq c (List.mem_append_right _ hc)
  obtain ⟨f, hf, hblank⟩ := Join.exists_foldl hjoins hfirst
  have hfilter : q.filter.all (Condition.holds (.refuting e) f) = true := by
    apply List.all_eq_true.2
    intro c hc
    exact (hblank.holds_iff c).2 (hq c (List.mem_append_left _ hc))
  exact ⟨f, List.mem_filter.2 ⟨hf, hfilter⟩, hblank⟩

end Blank

namespace Join

theorem flatMap_conditions_perm (joins : List Join) : (joins.flatMap conditions).Perm
    (joins.flatMap (conditionsOf .inner) ++ joins.flatMap (conditionsOf .leftOuter)) := by
  have hsplit : conditions = fun j => j.conditionsOf .inner ++ j.conditionsOf .leftOuter := by
    funext j
    cases hk : j.kind <;> simp [conditionsOf, hk]
  rw [hsplit]
  exact (List.flatMap_append_perm joins (conditionsOf .inner) (conditionsOf .leftOuter)).symm

end Join

namespace Query

variable {root : Relation} {q : Query} {names : Naming} {chain : Chain}

theorem conjuncts_perm (q : Query) :
    q.conjuncts.Perm (q.conditionsOf .inner ++ q.conditionsOf .leftOuter) := by
  unfold conjuncts conditionsOf
  rw [List.append_assoc]
  exact (Join.flatMap_conditions_perm q.joins).append_left q.filter

theorem Compiled.count_blanked (h : Compiled root q names chain) (e : Expr Empty) :
    (q.conjuncts.map Expr.blanked).count e =
      (root.placed.map fun p => p.predicate.blanked).count e := by
  obtain ⟨cs, hcs, hperm⟩ := h.conjuncts
  have hmap := map_eq_map_of_forall₂ (f := fun p : Placed => p.predicate.blanked)
    (g := Expr.blanked) (fun p c hc => (View.rel_of_condition hc).blanked_eq.symm) hcs
  rw [(hperm.map Expr.blanked).count_eq, hmap]

theorem Compiled.not_enforces (h : Compiled root q names chain) (direct : root.directAliases = true)
    {p : Predicate} (hp : (p, .leftOuter) ∈ root.filters root .leading)
    (alone : (root.placed.map fun p => p.predicate.blanked).count p.blanked = 1) :
    ¬ q.Enforces root p := by
  intro henforces
  have apart := Relation.aliasesApart_of_direct direct
  obtain ⟨c, hc, ht⟩ := h.tests direct _ hp
  have hblanked : c.blanked = p.blanked := (View.rel_of_condition hc).blanked_eq
  have houter : c ∈ q.conditionsOf .leftOuter := h.mem_conditionsOf ht
  -- one conjunct looks like the predicate, and that is the one of the left outer join
  have hothers : ∀ d ∈ q.conditionsOf .inner, d.blanked ≠ p.blanked := by
    intro d hd heq
    have hcount := (q.conjuncts_perm.map Expr.blanked).count_eq p.blanked
    rw [h.count_blanked, alone, List.map_append, List.count_append] at hcount
    have hinner := List.count_pos_iff.2 (List.mem_map.2 ⟨d, hd, heq⟩)
    have houter := List.count_pos_iff.2 (List.mem_map.2 ⟨c, houter, hblanked⟩)
    omega
  obtain ⟨f, hf, hblank⟩ := exists_frame hothers
  have htrue := henforces _ _ _ f hf
  have hkeys := (tested_of_mem_frames (h.onInScope apart).inScope hf).1
  rw [h.holds_keyed apart _ hkeys (Relation.mem_placed_of_mem_filters hp) hc,
    hblank.holds_iff] at htrue
  exact htrue hblanked

/-- What WHERE or an inner join tests is true of all rows. What a left outer join tests is not,
unless another predicate that looks the same makes up for it. -/
theorem enforces_of_mem_filters (h : compile root = .ok q) (direct : root.directAliases = true) :
    q.wellScoped = true ∧ ∀ e ∈ root.filters root .leading,
      (e.2 = .inner → q.Enforces root e.1) ∧
      (e.2 = .leftOuter →
        (root.placed.map fun p => p.predicate.blanked).count e.1.blanked = 1 →
          ¬ q.Enforces root e.1) := by
  obtain ⟨names, chain, h⟩ := compiled_of_ok h
  have apart := Relation.aliasesApart_of_direct direct
  refine ⟨h.wellScoped (h.onInScope apart), fun e he => ⟨fun hk => ?_, fun hk alone => ?_⟩⟩
  · exact h.enforces direct (hk ▸ he)
  · exact h.not_enforces direct (hk ▸ he) alone

/-- An inner join onto a selection from a left outer join. -/
def outerSelection : Relation :=
  let key (table : Nat) : Predicate := .ref ⟨⟨table⟩, "k"⟩
  let outer := Relation.join ⟨3⟩ .leftOuter (.table ⟨1⟩ "b" ["k"]) (.table ⟨2⟩ "c" ["k"])
    (.binary .eq (key 1) (key 2))
  let selected := Relation.selection ⟨4⟩ outer (.binary .eq (key 1) (.literal (.integer 1)))
  .join ⟨5⟩ .inner (.table ⟨0⟩ "a" ["k"]) selected (.binary .eq (key 0) (key 1))

def outerSelectionQuery : Query where
  columns := [⟨"a", "k"⟩, ⟨"b", "k"⟩, ⟨"c", "k"⟩]
  source := ⟨"a", none⟩
  joins := [⟨.inner, ⟨"b", none⟩, [.binary .eq (.ref ⟨"a", "k"⟩) (.ref ⟨"b", "k"⟩)]⟩,
    ⟨.leftOuter, ⟨"c", none⟩, [.binary .eq (.ref ⟨"b", "k"⟩) (.ref ⟨"c", "k"⟩),
      .binary .eq (.ref ⟨"b", "k"⟩) (.literal (.integer 1))]⟩]
  filter := []

theorem enforces_outerSelection : compile outerSelection = .ok outerSelectionQuery ∧
    outerSelection.directAliases = true ∧ outerSelectionQuery.wellScoped = true ∧
    outerSelectionQuery.Enforces outerSelection
      (.binary .eq (.ref ⟨⟨0⟩, "k"⟩) (.ref ⟨⟨1⟩, "k"⟩)) ∧
    ¬ outerSelectionQuery.Enforces outerSelection
      (.binary .eq (.ref ⟨⟨1⟩, "k"⟩) (.literal (.integer 1))) := by
  have hq : compile outerSelection = .ok outerSelectionQuery := by rfl
  have hdirect : outerSelection.directAliases = true := by rfl
  obtain ⟨hscope, hfilters⟩ := enforces_of_mem_filters hq hdirect
  refine ⟨hq, hdirect, hscope, ?_, ?_⟩
  · exact (hfilters _ (List.mem_cons_of_mem _ List.mem_cons_self)).1 (by decide)
  · exact (hfilters _ List.mem_cons_self).2 (by decide) (by decide)

/-- With one row in each of the joined tables and none to find, the selection lets a row through
on which it is false. -/
theorem not_filtered_outerSelection : compile outerSelection = .ok outerSelectionQuery ∧
    outerSelection.directAliases = true ∧
    ¬ ∀ e ∈ outerSelection.filters outerSelection .leading,
      ∀ f ∈ outerSelectionQuery.frames .integers
          (fun table => if table = "c" then [] else [.ofList [("k", 2)]]),
        Placed.holds .integers outerSelection (outerSelection.keyed f) ⟨[], e.1⟩ = true := by
  refine ⟨by rfl, by rfl, ?_⟩
  decide

end Query

end RelationalSelect
