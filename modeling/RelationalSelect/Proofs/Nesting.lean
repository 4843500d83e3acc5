import RelationalSelect.Proofs.Contexts
import RelationalSelect.Proofs.Routing

/-!
Joins associate as long as every condition finds its tables.

With the second join on the left, the condition of the first join has only the clauses of the second
operand to settle in; with the second join on the right it has those of the third operand as well.
If it settles in a clause of the second operand, both ways give the same chain.
-/

set_option autoImplicit false

namespace RelationalSelect

theorem modify_append_of_lt {α : Type} {f : α → α} {l : List α} {i : Nat} (hi : i < l.length)
    (m : List α) : (l ++ m).modify i f = l.modify i f ++ m := by
  induction l generalizing i with
  | nil => contradiction
  | cons a l ih =>
    cases i with
    | zero => rfl
    | succ i => simp [ih (by simpa using hi)]

namespace Join

theorem Settles.unique {c : Condition} {visible : List String} {joins : List Join} {i k : Nat}
    (hi : Settles c visible joins i) (hk : Settles c visible joins k) : i = k := by
  rcases Nat.lt_trichotomy i k with hlt | heq | hgt
  · exact absurd hi.within (Bool.eq_false_iff.1 (hk.first i hlt))
  · exact heq
  · exact absurd hk.within (Bool.eq_false_iff.1 (hi.first k hgt))

theorem settles_append_iff {c : Condition} {visible : List String} {joins : List Join} {i : Nat}
    (hi : i < joins.length) (more : List Join) :
    Settles c visible (joins ++ more) i ↔ Settles c visible joins i := by
  have htake : ∀ k ≤ i, (joins ++ more).take (k + 1) = joins.take (k + 1) :=
    fun k hk => List.take_append_of_le_length (by omega)
  constructor
  · intro h
    refine ⟨hi, htake i (Nat.le_refl i) ▸ h.within, fun k hk => ?_⟩
    exact htake k (Nat.le_of_lt hk) ▸ h.first k hk
  · intro h
    refine ⟨by simp; omega, (htake i (Nat.le_refl i)).symm ▸ h.within, fun k hk => ?_⟩
    exact (htake k (Nat.le_of_lt hk)).symm ▸ h.first k hk

end Join

namespace Chain

variable {names : Naming} {view : View} {role : Role} {before : List String}

theorem Flattens.length_opened {r : Relation} {chain : Chain}
    (h : Flattens names r view role before chain) (kind : JoinKind) :
    (chain.opened kind).length = r.occurrences.length := by
  rw [h.sources.length_eq]
  simp [opened, Chain.sources]

theorem opened_follow (first : Chain) (kind kind₁ : JoinKind) (second : Chain) (i : Nat)
    (c : Condition) : (first.follow kind second i c).opened kind₁ =
      first.opened kind₁ ++ (second.opened kind).modify i (Join.receive i c) := rfl

theorem follow_follow {first second third : Chain} {kind : JoinKind} {i : Nat}
    (hi : i < (second.opened .inner).length) (c d : Condition) (n : Nat) :
    (first.follow .inner second i c).follow kind third n d =
      first.follow .inner (second.follow kind third n d) i c := by
  have hjoins : ((second.follow kind third n d).opened .inner).modify i (Join.receive i c) =
      (second.opened .inner).modify i (Join.receive i c) ++
        (third.opened kind).modify n (Join.receive n d) := by
    rw [opened_follow, modify_append_of_lt hi]
  simp only [follow] at hjoins ⊢
  rw [hjoins, List.append_assoc, List.append_assoc]

def SettlesBelow (names : Naming) (left right : Relation) (p : Predicate) (role : Role)
    (before : List String) (n : Nat) : Prop :=
  ∃ first second c i, Flattens names left names.outside role before first ∧
    Flattens names right names.outside .joined (before ++ first.entered) second ∧
    names.outside.condition p = .ok c ∧
    Join.Settles c (before ++ first.entered) (second.opened .inner) i ∧ i < n

variable {a b c : Relation} {p q : Predicate} {kind : JoinKind} {chain : Chain}

theorem Flattens.nestRight {i j : Identity}
    (h : Flattens names (.join i kind (.join j .inner a b p) c q) names.outside role before chain)
    (l m : Identity) :
    Flattens names (.join l .inner a (.join m kind b c q) p) names.outside role before chain ∧
      SettlesBelow names a (.join m kind b c q) p role before b.occurrences.length := by
  cases h with
  | @join _ _ _ _ _ _ _ _ _ third d n flatLeft flatThird single compiledOuter settlesOuter =>
  cases flatLeft with
  | @join _ _ _ _ _ _ _ _ first second cond k flatFirst flatSecond _ compiled settles =>
    simp only [follow, ← List.append_assoc] at flatThird settlesOuter
    have flatRight : Flattens names (.join m kind b c q) names.outside .joined
        (before ++ first.entered) (second.follow kind third n d) :=
      .join flatSecond flatThird single compiledOuter settlesOuter
    have settlesRight : Join.Settles cond (before ++ first.entered)
        ((second.follow kind third n d).opened .inner) k := by
      rw [opened_follow]
      exact (Join.settles_append_iff settles.lt _).2 settles
    rw [follow_follow settles.lt]
    refine ⟨.join flatFirst flatRight (by simp) compiled settlesRight, ?_⟩
    refine ⟨first, _, cond, k, flatFirst, flatRight, compiled, settlesRight, ?_⟩
    rw [← flatSecond.length_opened .inner]
    exact settles.lt

theorem Flattens.nestLeft {l m : Identity}
    (h : Flattens names (.join l .inner a (.join m kind b c q) p) names.outside role before chain)
    (below : SettlesBelow names a (.join m kind b c q) p role before b.occurrences.length)
    (i j : Identity) :
    Flattens names (.join i kind (.join j .inner a b p) c q) names.outside role before chain := by
  obtain ⟨first₁, right₁, cond₁, k₁, flatFirst₁, flatRight₁, compiled₁, settles₁, hk⟩ := below
  cases h with
  | @join _ _ _ _ _ _ _ _ first right cond k flatFirst flatRight _ compiled settles =>
  obtain rfl := flatFirst₁.unique flatFirst
  obtain rfl := flatRight₁.unique flatRight
  obtain rfl : cond₁ = cond := Except.ok.inj (compiled₁.symm.trans compiled)
  obtain rfl := settles₁.unique settles
  cases flatRight with
  | @join _ _ _ _ _ _ _ _ second third _ n flatSecond flatThird single compiledOuter settlesOuter =>
    rw [← flatSecond.length_opened .inner] at hk
    rw [opened_follow] at settles
    have settlesSecond := (Join.settles_append_iff hk _).1 settles
    rw [← follow_follow hk]
    simp only [List.append_assoc] at flatThird settlesOuter
    exact .join (.join flatFirst flatSecond (by simp) compiled settlesSecond) flatThird single
      compiledOuter settlesOuter

end Chain

namespace Context

variable {ctx : Context} {names : Naming} {role role₁ : Role} {before before₁ : List String}

theorem Reaches.leading (h : Reaches names ctx role before role₁ before₁)
    (first : role = .leading → before = []) : role₁ = .leading → before₁ = [] := by
  induction h with
  | hole => exact first
  | selection _ ih | joinLeft _ ih => exact ih first
  | joinRight _ _ ih => exact ih nofun

theorem Reaches.routes_fill {r : Relation} {chain chain₁ : Chain} {slots₁ : List Slot}
    (h : Reaches names ctx role before role₁ before₁)
    (flat₁ : Chain.Flattens names r names.outside role₁ before₁ chain₁)
    (routes : chain₁.Routes names r names.outside role₁ before₁ slots₁)
    (flat : Chain.Flattens names (ctx.fill r) names.outside role before chain)
    (first : role = .leading → before = []) : ∃ slots,
      chain.Routes names (ctx.fill r) names.outside role before slots ∧ slots₁ ⊆ slots := by
  induction h generalizing chain with
  | hole =>
    obtain rfl := flat.unique flat₁
    exact ⟨slots₁, routes, List.Subset.refl _⟩
  | selection _ ih =>
    cases flat with
    | selection flat compiled _ =>
      obtain ⟨slots, hr, hsub⟩ := ih flat₁ routes flat first
      exact ⟨_, hr.restrict first flat.sources.length_eq.symm compiled,
        List.subset_append_of_subset_left _ hsub⟩
  | joinLeft _ ih =>
    cases flat with
    | join flatLeft flatRight _ compiled settles =>
      obtain ⟨slots, hr, hsub⟩ := ih flat₁ routes flatLeft first
      obtain ⟨more, hs⟩ := flatRight.routes nofun
      exact ⟨_, hr.follow hs flatLeft.scoped.length_entered flatLeft.sources.length_eq.symm
        flatRight.sources.length_eq.symm compiled settles,
        List.subset_append_of_subset_left _ hsub⟩
  | joinRight flatLeft₁ _ ih =>
    cases flat with
    | join flatLeft flatRight _ compiled settles =>
      obtain rfl := flatLeft.unique flatLeft₁
      obtain ⟨front, hs⟩ := flatLeft.routes first
      obtain ⟨slots, hr, hsub⟩ := ih flat₁ routes flatRight nofun
      exact ⟨_, hs.follow hr flatLeft.scoped.length_entered flatLeft.sources.length_eq.symm
        flatRight.sources.length_eq.symm compiled settles,
        List.subset_append_of_subset_right _ (List.subset_append_of_subset_left _ hsub)⟩

end Context

namespace Query

/-- In the tree with an inner join in the hole, the condition of that join settles in one of the
first clauses of its right operand. -/
def SettlesBelow (ctx : Context) (id : Identity) (left right : Relation) (p : Predicate)
    (n : Nat) : Prop :=
  ∃ names role before,
    (Naming.assign (ctx.fill (.join id .inner left right p))).outcome = .ok names ∧
    ctx.Reaches names .leading [] role before ∧
    Chain.SettlesBelow names left right p role before n

section Slots

variable {ctx : Context} {id : Identity} {left right : Relation} {p : Predicate}

theorem settlesBelow_iff {names : Naming} {role : Role} {before : List String}
    {first second : Chain} {c : Condition} {i : Nat}
    (assigned : (Naming.assign (ctx.fill (.join id .inner left right p))).outcome = .ok names)
    (reaches : ctx.Reaches names .leading [] role before)
    (flatLeft : Chain.Flattens names left names.outside role before first)
    (flatRight : Chain.Flattens names right names.outside .joined (before ++ first.entered) second)
    (compiled : names.outside.condition p = .ok c)
    (settles : Join.Settles c (before ++ first.entered) (second.opened .inner) i) (n : Nat) :
    SettlesBelow ctx id left right p n ↔ i < n := by
  constructor
  · rintro ⟨names₁, role₁, before₁, assigned₁, reaches₁, first₁, second₁, c₁, i₁, flatLeft₁,
      flatRight₁, compiled₁, settles₁, hlt⟩
    obtain rfl := Except.ok.inj (assigned₁.symm.trans assigned)
    obtain ⟨rfl, rfl⟩ := reaches₁.unique reaches
    obtain rfl := flatLeft₁.unique flatLeft
    obtain rfl := flatRight₁.unique flatRight
    obtain rfl := Except.ok.inj (compiled₁.symm.trans compiled)
    rwa [← settles₁.unique settles]
  · intro hlt
    exact ⟨names, role, before, assigned, reaches, first, second, c, i, flatLeft, flatRight,
      compiled, settles, hlt⟩

/-- The slot of the join in the hole tells in which of the clauses of its right operand its
condition stands, counted from the one that the join introduces. -/
theorem exists_slot_settlesBelow {q : Query}
    (h : compile (ctx.fill (.join id .inner left right p)) = .ok q) :
    ∃ slots, Routed (ctx.fill (.join id .inner left right p)) q slots ∧
      ∃ s ∈ slots, s.site.node = .join id .inner left right p ∧
        ∀ n, SettlesBelow ctx id left right p n ↔ s.clause < s.site.first + n := by
  obtain ⟨names, chain, h⟩ := compiled_of_ok h
  obtain ⟨role, before, chain₁, hreaches, hflat, -⟩ :=
    Context.flattens_fill (h.exposed rfl) h.flattens
  have hfirst := hreaches.leading fun _ => rfl
  cases hflat with
  | @join _ _ _ _ _ _ _ _ first second c i flatLeft flatRight single compiled settles =>
    let s := Slot.ofJoin id .inner left right p before.length i c
    obtain ⟨slots, hs⟩ := flatLeft.routes hfirst
    obtain ⟨slots₁, hs₁⟩ := flatRight.routes nofun
    have hroutes : (first.follow .inner second i c).Routes names (.join id .inner left right p)
        names.outside role before (slots ++ (slots₁ ++ [s])) :=
      hs.follow hs₁ flatLeft.scoped.length_entered flatLeft.sources.length_eq.symm
        flatRight.sources.length_eq.symm compiled settles
    obtain ⟨all, hall, hsub⟩ := hreaches.routes_fill
      (.join flatLeft flatRight single compiled settles) hroutes h.flattens fun _ => rfl
    refine ⟨all, h.routed hall, s, hsub (by simp), rfl, fun n => ?_⟩
    rw [settlesBelow_iff h.assigned hreaches flatLeft flatRight compiled settles]
    exact Nat.add_lt_add_iff_left.symm

end Slots

/-- Joins nested to the left give a statement when joins nested to the right give the same one, with
the outer condition in a clause of the middle operand. -/
theorem compile_nested_iff (ctx : Context) (a b c : Relation) (p q : Predicate) (kind : JoinKind)
    (i j l m : Identity) (query : Query) :
    compile (ctx.fill (.join i kind (.join j .inner a b p) c q)) = .ok query ↔
      compile (ctx.fill (.join l .inner a (.join m kind b c q) p)) = .ok query ∧
        SettlesBelow ctx l a (.join m kind b c q) p b.occurrences.length := by
  constructor
  · intro h
    obtain ⟨names, chain, h⟩ := compiled_of_ok h
    have hright := h.exchange (s := .join l .inner a (.join m kind b c q) p) rfl
      (by simp [Relation.occurrences]) (by simp [Relation.attributes])
      fun role before chain₁ _ hflat => (hflat.nestRight l m).1
    obtain ⟨role, before, chain₁, hreaches, hflat, -⟩ :=
      Context.flattens_fill (h.exposed rfl) h.flattens
    exact ⟨compile_of_compiled hright, names, role, before, hright.assigned, hreaches,
      (hflat.nestRight l m).2⟩
  · rintro ⟨h, names₁, role₁, before₁, assigned, hreaches₁, below⟩
    obtain ⟨names, chain, h⟩ := compiled_of_ok h
    obtain rfl : names₁ = names := Except.ok.inj (assigned.symm.trans h.assigned)
    refine compile_of_compiled (h.exchange rfl (by simp [Relation.occurrences])
      (by simp [Relation.attributes]) fun role before chain₁ hreaches hflat => ?_)
    obtain ⟨rfl, rfl⟩ := hreaches₁.unique hreaches
    exact hflat.nestLeft below i j

def forumUsers : Relation := .table ⟨0⟩ "users" ["id"]

def forumPosts : Relation := .table ⟨1⟩ "posts" ["author", "topic"]

def forumTopics : Relation := .table ⟨2⟩ "topics" ["id", "owner"]

def onTopic : Predicate := .binary .eq (.ref ⟨⟨1⟩, "topic"⟩) (.ref ⟨⟨2⟩, "id"⟩)

def byAuthor : Predicate := .binary .eq (.ref ⟨⟨0⟩, "id"⟩) (.ref ⟨⟨1⟩, "author"⟩)

def byOwner : Predicate := .binary .eq (.ref ⟨⟨0⟩, "id"⟩) (.ref ⟨⟨2⟩, "owner"⟩)

def topicsLast (p : Predicate) : Relation :=
  .join ⟨4⟩ .inner (.join ⟨3⟩ .inner forumUsers forumPosts p) forumTopics onTopic

def topicsFirst (p : Predicate) : Relation :=
  .join ⟨6⟩ .inner forumUsers (.join ⟨5⟩ .inner forumPosts forumTopics onTopic) p

def forumQuery (onPosts onTopics : List Condition) : Query where
  columns := [⟨"users", "id"⟩, ⟨"posts", "author"⟩, ⟨"posts", "topic"⟩, ⟨"topics", "id"⟩,
    ⟨"topics", "owner"⟩]
  source := ⟨"users", none⟩
  joins := [⟨.inner, ⟨"posts", none⟩, onPosts⟩, ⟨.inner, ⟨"topics", none⟩,
    .binary .eq (.ref ⟨"posts", "topic"⟩) (.ref ⟨"topics", "id"⟩) :: onTopics⟩]
  filter := []

/-- A condition on the posts allows both nestings; one on the topics waits for their clause. -/
theorem compile_nested_forum :
    let author : Condition := .binary .eq (.ref ⟨"users", "id"⟩) (.ref ⟨"posts", "author"⟩)
    let owner : Condition := .binary .eq (.ref ⟨"users", "id"⟩) (.ref ⟨"topics", "owner"⟩)
    let right := Relation.join ⟨5⟩ .inner forumPosts forumTopics onTopic
    (compile (topicsLast byAuthor) = .ok (forumQuery [author] []) ∧
      compile (topicsFirst byAuthor) = .ok (forumQuery [author] []) ∧
      SettlesBelow .hole ⟨6⟩ forumUsers right byAuthor 1) ∧
    compile (topicsLast byOwner) = .error (.malformedTree .earlyJoinCondition) ∧
      compile (topicsFirst byOwner) = .ok (forumQuery [] [owner]) ∧
      ¬ SettlesBelow .hole ⟨6⟩ forumUsers right byOwner 1 := by
  intro author owner right
  have hlast : compile (topicsLast byAuthor) = .ok (forumQuery [author] []) := by rfl
  have hstuck : compile (topicsLast byOwner) = .error (.malformedTree .earlyJoinCondition) := by rfl
  have hfirst : compile (topicsFirst byOwner) = .ok (forumQuery [] [owner]) := by rfl
  have hiff (p : Predicate) (q : Query) := compile_nested_iff .hole forumUsers forumPosts
    forumTopics p onTopic .inner ⟨4⟩ ⟨3⟩ ⟨6⟩ ⟨5⟩ q
  refine ⟨⟨hlast, (hiff _ _).1 hlast⟩, hstuck, hfirst, fun below => ?_⟩
  have hcompiled : compile (topicsLast byOwner) = _ := (hiff _ _).2 ⟨hfirst, below⟩
  rw [hstuck] at hcompiled
  contradiction

end Query

end RelationalSelect
