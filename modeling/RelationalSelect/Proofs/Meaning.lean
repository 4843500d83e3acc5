import RelationalSelect.Proofs.Conjuncts
import RelationalSelect.Proofs.Frames

/-!
Statements without outer joins mean what their trees mean.

The sources of a statement are the occurrences of its tree under other keys, names in place of
identities. No two occurrences share a name, so a frame and a combination of rows agree on
what they hold under corresponding keys, and with it on every predicate.
-/

set_option autoImplicit false

namespace RelationalSelect

variable {V : Type}

/-- A combination of rows under other keys. -/
def rekeyed {κ μ : Type} (key : κ → μ) (rows : List (κ × Row V)) : List (μ × Row V) :=
  rows.map fun e => (key e.1, e.2)

theorem lookup_rekeyed {κ μ : Type} [DecidableEq κ] [DecidableEq μ] {key : κ → μ} {k : κ}
    {rows : List (κ × Row V)} (inj : ∀ e ∈ rows, key e.1 = key k → e.1 = k) :
    (rekeyed key rows).lookup (key k) = rows.lookup k := by
  induction rows with
  | nil => rfl
  | cons e rows ih =>
    have hrest := ih fun e₁ he₁ => inj e₁ (List.mem_cons_of_mem _ he₁)
    change ((key e.1, e.2) :: rekeyed key rows).lookup (key k) = (e :: rows).lookup k
    rw [List.lookup_cons, List.lookup_cons, hrest]
    by_cases he : e.1 = k
    · simp [he]
    · have hkey : key e.1 ≠ key k := fun h => he (inj e List.mem_cons_self h)
      have hk : (k == e.1) = false := by simpa using fun h : k = e.1 => he h.symm
      have hkk : (key k == key e.1) = false := by simpa using fun h : key k = key e.1 => hkey h.symm
      rw [hk, hkk]

theorem extendBy_rekeyed {κ μ : Type} (key : κ → μ) (k : κ) (table : List (Row V))
    (rows : List (κ × Row V)) :
    extendBy (key k) table (rekeyed key rows) = (extendBy k table rows).map (rekeyed key) := by
  simp [extendBy, rekeyed]

theorem product_rekeyed {κ μ : Type} (key : κ → μ) (tables : List (κ × List (Row V))) :
    product (tables.map fun t => (key t.1, t.2)) = (product tables).map (rekeyed key) := by
  -- the keys of a product do not depend on the rows, so they can be renamed at every step
  have hfold : ∀ all : List (List (κ × Row V)),
      (tables.map fun t => (key t.1, t.2)).foldl (fun found t => found.flatMap (extendBy t.1 t.2))
          (all.map (rekeyed key)) =
        (tables.foldl (fun found t => found.flatMap (extendBy t.1 t.2)) all).map (rekeyed key) := by
    induction tables with
    | nil => intro all; rfl
    | cons t tables ih =>
      intro all
      simp only [List.map_cons, List.foldl_cons]
      rw [← ih, List.flatMap_map, List.map_flatMap]
      simp only [extendBy_rekeyed]
  exact hfold [[]]

theorem keys_of_product {κ : Type} {tables : List (κ × List (Row V))} {rows : List (κ × Row V)}
    (h : rows ∈ product tables) : rows.map Prod.fst = tables.map Prod.fst := by
  have hfold : ∀ (done : List κ) (all : List (List (κ × Row V))),
      (∀ f ∈ all, f.map Prod.fst = done) →
      ∀ f ∈ tables.foldl (fun found t => found.flatMap (extendBy t.1 t.2)) all,
        f.map Prod.fst = done ++ tables.map Prod.fst := by
    clear h
    induction tables with
    | nil =>
      intro done all hall f hf
      simpa using hall f hf
    | cons t tables ih =>
      intro done all hall f hf
      have hstep : ∀ g ∈ all.flatMap (extendBy t.1 t.2), g.map Prod.fst = done ++ [t.1] := by
        intro g hg
        obtain ⟨f₁, hf₁, hg⟩ := List.mem_flatMap.1 hg
        rw [keys_of_extendBy hg, hall f₁ hf₁]
      simpa using ih _ _ hstep f hf
  simpa using hfold [] [[]] (by simp) rows h

theorem Expr.Rel.value_eq {α β : Type} (I : Interpretation V) {R : α → β → Prop} {r : α → V}
    {s : β → V} (hrs : ∀ a b, R a b → s b = r a) {p : Expr α} {c : Expr β} (h : p.Rel R c) :
    c.value I s = p.value I r := by
  induction h with
  | ref h => exact hrs _ _ h
  | literal v => rfl
  | binary op _ _ ihl ihr => rw [value, value, ihl, ihr]

namespace Naming

def key (names : Naming) (x : Identity) : String := (names.nameOf x).getD ""

theorem key_of_nameOf {names : Naming} {x : Identity} {t : String}
    (h : names.nameOf x = some t) : names.key x = t := by simp [key, h]

namespace Names

variable {names : Naming} {root : Relation}

/-- When no alias is met twice, an alias in FROM gives its name to all that it carries, through the
aliases that it wraps as well. -/
theorem through_wrapped (hn : names.Names root.occurrences) (apart : root.AliasesApart)
    {a : Relation} (ha : a ∈ root.occurrences) {front : List Relation}
    (hfront : ∀ b ∈ front, b ∈ a.wrapped) (x : Identity) :
    names.through (front ++ [a]) names.outside x =
      (root.carrierWithin (some a) x).bind fun o => names.nameOf o.id := by
  have hnone : front.find? (names.shows x) = none := by
    refine List.find?_eq_none.2 fun b hb hs => ?_
    obtain ⟨o, ho, hid, -⟩ := hn.shows_iff.1 hs
    exact apart a ha b (hfront b hb) (hid ▸ List.mem_map_of_mem ho)
  have ha_shows : names.shows x a = a.contains x := by
    refine Bool.eq_iff_iff.2 (hn.shows_iff.trans ?_)
    rw [Relation.contains_iff]
    constructor
    · rintro ⟨o, ho, hid, hx⟩
      exact hn.eq_of_id_eq ho ha hid ▸ hx
    · intro hx
      exact ⟨a, ha, rfl, hx⟩
  rw [names.through_eq, List.find?_append, hnone, Option.none_or]
  simp only [List.find?_cons, List.find?_nil, ha_shows, Relation.carrierWithin]
  cases a.contains x with
  | true => rfl
  | false => exact hn.outside_eq x

/-- When no alias is met twice, a predicate inside an alias sees what that alias carries under its
name, and all else by the names outside. -/
theorem through_eq_carrierWithin (hn : names.Names root.occurrences) (apart : root.AliasesApart)
    {p : Placed} (hp : p ∈ root.placed) (x : Identity) : names.through p.around names.outside x =
      (root.carrierWithin p.around.getLast? x).bind fun o => names.nameOf o.id := by
  rcases Relation.around_cases hp with h | ⟨front, a, h, ha, hfront⟩ <;> rw [h]
  · exact hn.outside_eq x
  · rw [List.getLast?_concat]
    exact hn.through_wrapped apart ha hfront x

theorem read_column (hn : names.Names root.occurrences) (I : Interpretation V)
    {outermost : Option Relation} {view : View} (hview : ∀ x, view x =
      (root.carrierWithin outermost x).bind fun o => names.nameOf o.id)
    {rows : List (Identity × Row V)} (hrows : rows.map Prod.fst = root.occurrences.map Relation.id)
    {x : Attribute} {c : Column} (h : view x.owner = some c.table ∧ c.name = x.name) :
    Frame.read I (rekeyed names.key rows) c = root.read I outermost rows x := by
  obtain ⟨ht, hname⟩ := h
  rw [hview] at ht
  obtain ⟨o, ho, hot⟩ := Option.bind_eq_some_iff.1 ht
  have hinj : ∀ e ∈ rows, names.key e.1 = names.key o.id → e.1 = o.id := by
    intro e he hkey
    have hmem : e.1 ∈ root.occurrences.map Relation.id := hrows ▸ List.mem_map_of_mem he
    obtain ⟨r, hr, hid⟩ := List.mem_map.1 hmem
    obtain ⟨t, hrt⟩ := hn.exists_nameOf hr
    rw [← hid] at hkey ⊢
    rw [key_of_nameOf hrt, key_of_nameOf hot] at hkey
    exact hn.nameOf_inj hrt (hkey ▸ hot)
  unfold Frame.read Relation.read Interpretation.rowOf
  rw [ho, hname, ← key_of_nameOf hot, lookup_rekeyed hinj]

end Names

end Naming

namespace Query

variable {root : Relation} {q : Query} {names : Naming} {chain : Chain}

theorem Compiled.holds_eq (h : Compiled root q names chain) (apart : root.AliasesApart)
    (I : Interpretation V) {rows : List (Identity × Row V)}
    (hrows : rows.map Prod.fst = root.occurrences.map Relation.id) {p : Placed} {c : Condition}
    (hp : p ∈ root.placed) (hc : Chain.CompiledAt names names.outside p c) :
    Condition.holds I (rekeyed names.key rows) c = Placed.holds I root rows p := by
  have hview := h.listed.through_eq_carrierWithin apart hp
  have hread := fun x col => h.listed.read_column I hview hrows (x := x) (c := col)
  have hvalue := (View.rel_of_condition hc).value_eq I hread
  unfold Condition.holds Placed.holds
  rw [← hvalue]

theorem Compiled.all_conjuncts (h : Compiled root q names chain) (apart : root.AliasesApart)
    (I : Interpretation V) {rows : List (Identity × Row V)}
    (hrows : rows.map Prod.fst = root.occurrences.map Relation.id) :
    q.conjuncts.all (Condition.holds I (rekeyed names.key rows)) =
      root.placed.all (Placed.holds I root rows) := by
  obtain ⟨cs, hcs, hp⟩ := h.conjuncts
  have hplaced := (List.forall₂_and_left _ _).2 ⟨fun p hp => hp, hcs⟩
  have hmap := map_eq_map_of_forall₂
    (fun p c ⟨hp, hc⟩ => (h.holds_eq apart I hrows hp hc).symm) hplaced
  have hall := congrArg (List.all · id) hmap
  simp only [List.all_map, Function.id_comp] at hall
  rw [hp.all_eq]
  exact hall.symm

theorem Compiled.tables_eq (h : Compiled root q names chain) (db : Database V) :
    (q.sources.map fun s => (s.name, db s.table)) =
      (root.occurrences.map fun o => (o.id, o.baseRows db)).map fun t => (names.key t.1, t.2) := by
  rw [List.map_map]
  refine (map_eq_map_of_forall₂ (fun o s ⟨base, hb, hn, hs⟩ => ?_) h.sources_listed).symm
  have htable : s.table = base := by rw [hs]; rfl
  simp [Relation.baseRows, hb, Naming.key_of_nameOf hn, htable]

theorem combinations_eq (root : Relation) (db : Database V) :
    root.combinations db = product (root.occurrences.map fun o => (o.id, o.baseRows db)) := by
  unfold product Relation.combinations
  rw [List.foldl_map]

theorem keys_of_combinations {db : Database V} {rows : List (Identity × Row V)}
    (h : rows ∈ root.combinations db) : rows.map Prod.fst = root.occurrences.map Relation.id := by
  rw [combinations_eq] at h
  rw [keys_of_product h, List.map_map]
  rfl

theorem Compiled.product_sources (h : Compiled root q names chain) (db : Database V) :
    product (q.sources.map fun s => (s.name, db s.table)) =
      (root.combinations db).map (rekeyed names.key) := by
  rw [h.tables_eq, product_rekeyed, combinations_eq]

theorem Compiled.frames_eq (h : Compiled root q names chain) (apart : root.AliasesApart)
    (inner : ∀ k ∈ root.joinKinds, k = .inner) (I : Interpretation V) (db : Database V) :
    q.frames I db = ((root.combinations db).filter fun rows =>
      root.placed.all (Placed.holds I root rows)).map (rekeyed names.key) := by
  have hkinds : ∀ j ∈ q.joins, j.kind = .inner := by
    intro j hj
    refine inner _ ?_
    rw [← h.flattens.kinds, ← h.joins_eq]
    exact List.mem_map_of_mem hj
  rw [frames_of_inner I db hkinds (h.onInScope apart).inScope, h.product_sources, List.filter_map]
  congr 1
  refine List.filter_congr fun rows hrows => h.all_conjuncts apart I (keys_of_combinations hrows)

/-- The statement of a tree without outer joins returns the rows for which the tree stands. -/
theorem rows?_of_compile (h : compile root = .ok q) (inner : ∀ k ∈ root.joinKinds, k = .inner)
    (apart : root.AliasesApart) (I : Interpretation V) (db : Database V) :
    q.rows? I db = some (root.rows I db) := by
  obtain ⟨names, chain, h⟩ := compiled_of_ok h
  have hread : ∀ rows ∈ root.combinations db,
      q.columns.map (Frame.read I (rekeyed names.key rows)) =
        root.attributes.map (root.read I none rows) := by
    intro rows hrows
    refine (map_eq_map_of_forall₂ (fun x col hx => ?_) (forall₂_of_mapM h.columns)).symm
    exact (h.listed.read_column I h.listed.outside_eq (keys_of_combinations hrows)
      (View.column_eq_ok hx)).symm
  unfold rows? Relation.rows
  rw [if_pos (h.wellScoped (h.onInScope apart)), h.frames_eq apart inner, List.map_map]
  congr 1
  exact List.map_congr_left fun rows hrows => hread rows (List.mem_of_mem_filter hrows)

/-- Users who have a badge, with a lead who leads himself and has another badge: a table is shared
by the tree and the inside of an alias, and a condition waits for the alias. -/
def leads : Relation :=
  let users := Relation.table ⟨0⟩ "users" ["id", "lead"]
  let badges := Relation.table ⟨1⟩ "badges" ["user"]
  let own := Relation.selection ⟨2⟩ users (.binary .eq (.ref ⟨⟨0⟩, "lead"⟩) (.ref ⟨⟨0⟩, "id"⟩))
  let lead := Relation.aliased ⟨3⟩ own
  let others := Relation.join ⟨4⟩ .inner badges lead
    (.binary .ne (.ref ⟨⟨1⟩, "user"⟩) (.ref ⟨⟨3⟩, "id"⟩))
  let led := Relation.join ⟨5⟩ .inner users others
    (.binary .eq (.ref ⟨⟨0⟩, "lead"⟩) (.ref ⟨⟨3⟩, "id"⟩))
  .selection ⟨6⟩ led (.binary .eq (.ref ⟨⟨0⟩, "id"⟩) (.ref ⟨⟨1⟩, "user"⟩))

def leadsQuery : Query where
  columns := [⟨"users", "id"⟩, ⟨"users", "lead"⟩, ⟨"badges", "user"⟩, ⟨"users_2", "id"⟩,
    ⟨"users_2", "lead"⟩]
  source := ⟨"users", none⟩
  joins := [⟨.inner, ⟨"badges", none⟩, []⟩,
    ⟨.inner, ⟨"users", some "users_2"⟩,
      [.binary .ne (.ref ⟨"badges", "user"⟩) (.ref ⟨"users_2", "id"⟩),
        .binary .eq (.ref ⟨"users_2", "lead"⟩) (.ref ⟨"users_2", "id"⟩),
        .binary .eq (.ref ⟨"users", "lead"⟩) (.ref ⟨"users_2", "id"⟩)]⟩]
  filter := [.binary .eq (.ref ⟨"users", "id"⟩) (.ref ⟨"badges", "user"⟩)]

def leadsDatabase : Database (Option Int)
  | "users" => [.ofList [("id", 1), ("lead", 1)], .ofList [("id", 2), ("lead", 1)],
      .ofList [("id", 3)]]
  | "badges" => [.ofList [("user", 2)], .ofList [("user", 3)], .ofList [("user", 2)]]
  | _ => []

theorem rows?_leads : compile leads = .ok leadsQuery ∧ (∀ k ∈ leads.joinKinds, k = .inner) ∧
    leads.AliasesApart ∧
    leadsQuery.rows? .integers leadsDatabase = some (leads.rows .integers leadsDatabase) ∧
    leads.rows .integers leadsDatabase = [[some 2, some 1, some 2, some 1, some 1],
      [some 2, some 1, some 2, some 1, some 1]] := by
  have hq : compile leads = .ok leadsQuery := by rfl
  have hinner : ∀ k ∈ leads.joinKinds, k = .inner := by decide
  have hapart : leads.AliasesApart := by decide
  exact ⟨hq, hinner, hapart, rows?_of_compile hq hinner hapart .integers leadsDatabase, by decide⟩

end Query

end RelationalSelect
