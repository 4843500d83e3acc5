import RelationalSelect.Proofs.Views
import RelationalSelect.Query.Compile

/-!
Flattening as a relation: what a tree flattens into when nothing is wrong with it. The rules say all
that a step does, so that later inductions need not look into the computation.
-/

set_option autoImplicit false

namespace RelationalSelect

/-- Expressions that differ in their references only, and there as a relation says. -/
inductive Expr.Rel {α β : Type} (R : α → β → Prop) : Expr α → Expr β → Prop
  | ref {a : α} {b : β} (h : R a b) : Expr.Rel R (.ref a) (.ref b)
  | literal (v : Literal) : Expr.Rel R (.literal v) (.literal v)
  | binary (op : Operator) {l r : Expr α} {l₁ r₁ : Expr β} (left : Expr.Rel R l l₁)
      (right : Expr.Rel R r r₁) : Expr.Rel R (.binary op l r) (.binary op l₁ r₁)

theorem Expr.rel_of_mapM {α β ε : Type} {f : α → Except ε β} {R : α → β → Prop}
    (hf : ∀ a b, f a = .ok b → R a b) {p : Expr α} {c : Expr β} (h : p.mapM f = .ok c) :
    p.Rel R c := by
  induction p generalizing c with
  | ref a =>
    obtain ⟨b, hb, hc⟩ := bind_eq_ok_iff.1 h
    cases hc
    exact .ref (hf a b hb)
  | literal v =>
    cases h
    exact .literal v
  | binary op l r ihl ihr =>
    obtain ⟨l₁, hl, h⟩ := bind_eq_ok_iff.1 h
    obtain ⟨r₁, hr, h⟩ := bind_eq_ok_iff.1 h
    cases h
    exact .binary op (ihl hl) (ihr hr)

theorem Expr.Rel.refs {α β : Type} {R : α → β → Prop} {p : Expr α} {c : Expr β} (h : p.Rel R c) :
    List.Forall₂ R p.refs c.refs := by
  induction h with
  | ref h => exact .cons h .nil
  | literal v => exact .nil
  | binary op _ _ ihl ihr => exact List.rel_append ihl ihr

theorem forall₂_of_mapM {α β ε : Type} {f : α → Except ε β} {l : List α} {m : List β}
    (h : l.mapM f = .ok m) : List.Forall₂ (fun a b => f a = .ok b) l m := by
  induction l generalizing m with
  | nil =>
    cases h
    exact .nil
  | cons a l ih =>
    rw [List.mapM_cons] at h
    obtain ⟨b, hb, h⟩ := bind_eq_ok_iff.1 h
    obtain ⟨bs, hbs, h⟩ := bind_eq_ok_iff.1 h
    cases h
    exact .cons hb (ih hbs)

namespace View

theorem display_eq_ok {view : View} {id : Identity} {name : String}
    (h : view.display id = .ok name) : view id = some name := by
  unfold display at h
  split at h
  · next hv => rw [hv, Except.ok.inj h]
  · contradiction

theorem display_of_eq {view : View} {id : Identity} {name : String} (h : view id = some name) :
    view.display id = .ok name := by
  unfold display
  rw [h]

theorem column_eq_ok {view : View} {x : Attribute} {c : Column} (h : view.column x = .ok c) :
    view x.owner = some c.table ∧ c.name = x.name := by
  unfold column at h
  split at h
  · next hv =>
    cases h
    exact ⟨hv, rfl⟩
  · contradiction

theorem rel_of_condition {view : View} {p : Predicate} {c : Condition}
    (h : view.condition p = .ok c) :
    p.Rel (fun x col => view x.owner = some col.table ∧ col.name = x.name) c :=
  Expr.rel_of_mapM (fun _ _ => column_eq_ok) h

end View

namespace Chain

def sources (chain : Chain) : List Source := chain.source :: chain.joins.map Join.source

def opened (right : Chain) (kind : JoinKind) : List Join :=
  ⟨kind, right.source, right.conditions⟩ :: right.joins

end Chain

namespace Join

def receive (i : Nat) (c : Condition) (j : Join) : Join := if i = 0 then j.pushFront c else j.push c

@[simp] theorem source_receive (i : Nat) (c : Condition) (j : Join) :
    (j.receive i c).source = j.source := by
  unfold receive
  split <;> rfl

@[simp] theorem kind_receive (i : Nat) (c : Condition) (j : Join) :
    (j.receive i c).kind = j.kind := by
  unfold receive
  split <;> rfl

theorem conditions_receive (i : Nat) (c : Condition) (j : Join) :
    (j.receive i c).conditions.Perm (c :: j.conditions) := by
  unfold receive
  split
  · exact .refl _
  · exact List.perm_append_singleton c j.conditions

/-- A condition settles in the first of the clauses by which its tables have been joined. -/
structure Settles (c : Condition) (visible : List String) (joins : List Join) (i : Nat) : Prop where
  lt : i < joins.length
  within : c.within (visible ++ (joins.take (i + 1)).map (·.source.name)) = true
  first : ∀ k < i, c.within (visible ++ (joins.take (k + 1)).map (·.source.name)) = false

theorem settles_of_defer {c : Condition} {visible : List String} {joins joins₁ : List Join}
    {s : Source} (h : defer c visible joins = some (s, joins₁)) :
    ∃ i, Settles c visible joins i ∧ joins₁ = joins.modify i (·.push c) := by
  induction joins generalizing visible s joins₁ with
  | nil => simp [defer] at h
  | cons j rest ih =>
    simp only [defer] at h
    split at h
    · next hw =>
      cases h
      exact ⟨0, ⟨by simp, by simpa using hw, by simp⟩, rfl⟩
    · next hw =>
      obtain ⟨found, hd, hf⟩ := Option.map_eq_some_iff.1 h
      cases hf
      obtain ⟨i, hs, hj⟩ := ih hd
      refine ⟨i + 1, ⟨by simpa using hs.lt, by simpa using hs.within, fun k hk => ?_⟩, by simp [hj]⟩
      cases k with
      | zero => simpa using hw
      | succ k => simpa using hs.first k (by omega)

theorem defer_of_settles {c : Condition} {visible : List String} {joins : List Join} {i : Nat}
    (h : Settles c visible joins i) :
    ∃ j, joins[i]? = some j ∧
      defer c visible joins = some (j.source, joins.modify i (·.push c)) := by
  induction joins generalizing visible i with
  | nil => exact absurd h.lt (Nat.not_lt_zero i)
  | cons j rest ih =>
    cases i with
    | zero =>
      have hw : c.within (visible ++ [j.source.name]) = true := by simpa using h.within
      exact ⟨j, rfl, by simp [defer, hw]⟩
    | succ i =>
      have hw : c.within (visible ++ [j.source.name]) = false := by
        simpa using h.first 0 (Nat.succ_pos i)
      have hrest : Settles c (visible ++ [j.source.name]) rest i := by
        refine ⟨by simpa using h.lt, by simpa using h.within, fun k hk => ?_⟩
        simpa using h.first (k + 1) (by omega)
      obtain ⟨taker, htaker, hdefer⟩ := ih hrest
      exact ⟨taker, by simpa using htaker, by simp [defer, hw, hdefer]⟩

end Join

namespace Chain

theorem settles_of_clauses {right : Chain} {kind : JoinKind} {c : Condition}
    {visible : List String} {joins : List Join}
    (h : (right.clauses kind c visible).outcome = .ok joins) :
    ∃ i, Join.Settles c visible (right.opened kind) i ∧
      joins = (right.opened kind).modify i (Join.receive i c) := by
  simp only [clauses] at h
  split at h
  · next hw =>
    simp only [Logged.outcome_bind, Logged.outcome_record, Logged.outcome_pure] at h
    cases h
    exact ⟨0, ⟨by simp [opened], by simpa [opened] using hw, by simp⟩, rfl⟩
  · next hw =>
    split at h
    · next hd =>
      simp only [Logged.outcome_bind, Logged.outcome_record, Logged.outcome_pure] at h
      cases h
      obtain ⟨i, hs, rfl⟩ := Join.settles_of_defer hd
      refine ⟨i + 1, ⟨by simpa [opened] using hs.lt, by simpa [opened] using hs.within,
        fun k hk => ?_⟩, rfl⟩
      cases k with
      | zero => simpa [opened] using hw
      | succ k => simpa [opened] using hs.first k (by omega)
    · simp at h

def introduced (right : Chain) (kind : JoinKind) (i : Nat) (c : Condition) : Join :=
  ⟨kind, right.source, if i = 0 then c :: right.conditions else right.conditions⟩

theorem clauses_of_settles {right : Chain} {kind : JoinKind} {c : Condition}
    {visible : List String} {i : Nat} (h : Join.Settles c visible (right.opened kind) i) :
    ∃ taker, (right.opened kind)[i]? = some taker ∧ right.clauses kind c visible =
      ⟨.emitting (right.introduced kind i c) ::
          if i = 0 then [] else [.conditionMoved taker.source],
        .ok ((right.opened kind).modify i (Join.receive i c))⟩ := by
  cases i with
  | zero =>
    have hw : c.within (visible ++ [right.source.name]) = true := by
      simpa [opened] using h.within
    refine ⟨⟨kind, right.source, right.conditions⟩, rfl, ?_⟩
    simp only [clauses, hw, if_true]
    rfl
  | succ i =>
    have hw : c.within (visible ++ [right.source.name]) = false := by
      simpa [opened] using h.first 0 (Nat.succ_pos i)
    have hrest : Join.Settles c (visible ++ [right.source.name]) right.joins i := by
      refine ⟨by simpa [opened] using h.lt, by simpa [opened] using h.within, fun k hk => ?_⟩
      simpa [opened] using h.first (k + 1) (by omega)
    obtain ⟨taker, htaker, hdefer⟩ := Join.defer_of_settles hrest
    refine ⟨taker, by simpa [opened] using htaker, ?_⟩
    simp only [clauses, hw, hdefer, Bool.false_eq_true, if_false]
    rfl

theorem restrict_cases (chain : Chain) (role : Role) (c : Condition) :
    (role = .joined ∧ chain.joins ≠ [] ∧ chain.restrict role c =
      { chain with joins := chain.joins.modify (chain.joins.length - 1) (·.push c) }) ∨
    ((role = .leading ∨ chain.joins = []) ∧ chain.restrict role c =
      { chain with conditions := chain.conditions ++ [c] }) := by
  cases role with
  | leading => exact .inr ⟨.inl rfl, rfl⟩
  | joined =>
    cases hl : chain.joins.getLast? with
    | none => exact .inr ⟨.inr (List.getLast?_eq_none_iff.1 hl), by simp [restrict, hl]⟩
    | some last =>
      obtain ⟨front, hf⟩ := List.getLast?_eq_some_iff.1 hl
      refine .inl ⟨rfl, by simp [hf], ?_⟩
      rw [List.modify_eq_take_cons_drop (by simp [hf])]
      simp [restrict, hf]

/-- A chain and behind it the clauses of a right operand, of which one has got the condition. -/
def follow (first : Chain) (kind : JoinKind) (second : Chain) (i : Nat) (c : Condition) : Chain :=
  { first with
    joins := first.joins ++ (second.opened kind).modify i (Join.receive i c)
    entered := first.entered ++ second.entered }

/-- The rules by which a relation flattens. -/
inductive Flattens (names : Naming) : Relation → View → Role → List String → Chain → Prop
  | table {id : Identity} {name : String} {columns : List String} {view : View} {role : Role}
      {before : List String} {display : String} (named : view id = some display) :
      Flattens names (.table id name columns) view role before
        ⟨Source.named name display, [], [], [display]⟩
  | aliased {id : Identity} {inner : Relation} {view : View} {role : Role} {before : List String}
      {chain : Chain} {display : String} (named : view id = some display)
      (flat : Flattens names inner (names.inside id view) role before chain)
      (single : chain.joins = []) :
      Flattens names (.aliased id inner) view role before
        { chain with source := Source.named chain.source.table display }
  | selection {id : Identity} {inner : Relation} {predicate : Predicate} {view : View} {role : Role}
      {before : List String} {chain : Chain} {c : Condition}
      (flat : Flattens names inner view role before chain)
      (compiled : view.condition predicate = .ok c)
      (within : role = .joined → c.within (before ++ chain.entered) = true) :
      Flattens names (.selection id inner predicate) view role before (chain.restrict role c)
  | join {id : Identity} {kind : JoinKind} {left right : Relation} {predicate : Predicate}
      {view : View} {role : Role} {before : List String} {first second : Chain} {c : Condition}
      {i : Nat} (flatLeft : Flattens names left view role before first)
      (flatRight : Flattens names right view .joined (before ++ first.entered) second)
      (single : kind = .leftOuter → second.joins = [])
      (compiled : view.condition predicate = .ok c)
      (settles : Join.Settles c (before ++ first.entered) (second.opened kind) i) :
      Flattens names (.join id kind left right predicate) view role before
        (first.follow kind second i c)

theorem flattens_of_ok {names : Naming} {r : Relation} {view : View} {role : Role}
    {before : List String} {chain : Chain}
    (h : (ofRelation names r view role before).outcome = .ok chain) :
    Flattens names r view role before chain := by
  induction r generalizing view role before chain with
  | table id name columns =>
    simp only [ofRelation, Logged.liftM_eq, Logged.outcome_bind, Logged.outcome_ofExcept] at h
    obtain ⟨display, hd, h⟩ := bind_eq_ok_iff.1 h
    cases h
    exact .table (View.display_eq_ok hd)
  | aliased id inner ih =>
    simp only [ofRelation, Logged.liftM_eq, Logged.outcome_bind, Logged.outcome_ofExcept] at h
    obtain ⟨display, hd, h⟩ := bind_eq_ok_iff.1 h
    obtain ⟨chain₁, hc, h⟩ := bind_eq_ok_iff.1 h
    split at h
    · next hj =>
      cases h
      exact .aliased (View.display_eq_ok hd) (ih hc) (List.isEmpty_iff.1 hj)
    · simp at h
  | selection id inner predicate ih =>
    simp only [ofRelation, Logged.liftM_eq, Logged.outcome_bind, Logged.outcome_ofExcept] at h
    obtain ⟨chain₁, hc, h⟩ := bind_eq_ok_iff.1 h
    obtain ⟨c, hp, h⟩ := bind_eq_ok_iff.1 h
    split at h
    · simp at h
    · next hw =>
      cases h
      have within : role = .joined → c.within (before ++ chain₁.entered) = true := by
        intro hr
        simpa [hr] using hw
      exact .selection (ih hc) hp within
  | join id kind left right predicate ihl ihr =>
    simp only [ofRelation, Logged.liftM_eq, Logged.outcome_bind] at h
    obtain ⟨first, hl, h⟩ := bind_eq_ok_iff.1 h
    obtain ⟨second, hr, h⟩ := bind_eq_ok_iff.1 h
    split at h
    · simp at h
    · next hk =>
      simp only [Logged.outcome_bind] at h
      obtain ⟨c, hp, h⟩ := bind_eq_ok_iff.1 h
      obtain ⟨joins, hj, h⟩ := bind_eq_ok_iff.1 h
      cases h
      obtain ⟨i, hs, rfl⟩ := settles_of_clauses hj
      have single : kind = .leftOuter → second.joins = [] := by
        intro hkind
        simpa [hkind] using hk
      exact .join (ihl hl) (ihr hr) single hp hs

theorem ok_of_flattens {names : Naming} {r : Relation} {view : View} {role : Role}
    {before : List String} {chain : Chain} (h : Flattens names r view role before chain) :
    (ofRelation names r view role before).outcome = .ok chain := by
  induction h with
  | table named =>
    simp only [ofRelation, Logged.liftM_eq, Logged.outcome_bind, Logged.outcome_ofExcept]
    exact bind_eq_ok_iff.2 ⟨_, View.display_of_eq named, rfl⟩
  | aliased named _ single ih =>
    simp only [ofRelation, Logged.liftM_eq, Logged.outcome_bind, Logged.outcome_ofExcept]
    refine bind_eq_ok_iff.2 ⟨_, View.display_of_eq named, bind_eq_ok_iff.2 ⟨_, ih, ?_⟩⟩
    rw [if_pos (List.isEmpty_iff.2 single)]
    rfl
  | @selection _ _ _ _ role before chain c _ compiled within ih =>
    simp only [ofRelation, Logged.liftM_eq, Logged.outcome_bind, Logged.outcome_ofExcept]
    refine bind_eq_ok_iff.2 ⟨_, ih, bind_eq_ok_iff.2 ⟨_, compiled, ?_⟩⟩
    rw [if_neg (by simpa using within)]
    rfl
  | @join _ kind _ _ _ _ _ _ first second c i _ _ single compiled settles ihl ihr =>
    simp only [ofRelation, Logged.liftM_eq, Logged.outcome_bind]
    refine bind_eq_ok_iff.2 ⟨_, ihl, bind_eq_ok_iff.2 ⟨_, ihr, ?_⟩⟩
    rw [if_neg (by simpa using single)]
    simp only [Logged.outcome_bind, Logged.outcome_ofExcept]
    obtain ⟨taker, -, hclauses⟩ := clauses_of_settles settles
    exact bind_eq_ok_iff.2 ⟨_, compiled, bind_eq_ok_iff.2
      ⟨_, congrArg Logged.outcome hclauses, rfl⟩⟩

end Chain

namespace Query

structure Compiled (root : Relation) (q : Query) (names : Naming) (chain : Chain) : Prop where
  assigned : (Naming.assign root).outcome = .ok names
  listed : names.Names root.occurrences
  flattens : Chain.Flattens names root names.outside .leading [] chain
  columns : root.attributes.mapM names.outside.column = .ok q.columns
  source_eq : q.source = chain.source
  joins_eq : q.joins = chain.joins
  filter_eq : q.filter = chain.conditions

theorem compiled_of_ok {root : Relation} {q : Query} (h : compile root = .ok q) :
    ∃ names chain, Compiled root q names chain := by
  simp only [compile, compileLogged, Logged.liftM_eq, Logged.outcome_bind,
    Logged.outcome_ofExcept] at h
  obtain ⟨names, hn, h⟩ := bind_eq_ok_iff.1 h
  obtain ⟨chain, hf, h⟩ := bind_eq_ok_iff.1 h
  obtain ⟨columns, hc, h⟩ := bind_eq_ok_iff.1 h
  cases h
  exact ⟨names, chain, hn, Naming.names_of_assign hn, Chain.flattens_of_ok hf, hc, rfl, rfl, rfl⟩

theorem compile_of_compiled {root : Relation} {q : Query} {names : Naming} {chain : Chain}
    (h : Compiled root q names chain) : compile root = .ok q := by
  simp only [compile, compileLogged, Logged.liftM_eq, Logged.outcome_bind,
    Logged.outcome_ofExcept]
  refine bind_eq_ok_iff.2 ⟨names, h.assigned, bind_eq_ok_iff.2 ⟨chain,
    Chain.ok_of_flattens h.flattens, bind_eq_ok_iff.2 ⟨q.columns, h.columns, ?_⟩⟩⟩
  rw [← h.source_eq, ← h.joins_eq, ← h.filter_eq]
  rfl

theorem Compiled.sources_eq {root : Relation} {q : Query} {names : Naming} {chain : Chain}
    (h : Compiled root q names chain) : q.sources = chain.sources := by
  unfold sources Chain.sources
  rw [h.source_eq, h.joins_eq]

end Query

end RelationalSelect
