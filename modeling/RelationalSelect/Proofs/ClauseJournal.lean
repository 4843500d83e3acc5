import RelationalSelect.Proofs.Routing

/-!
What the journal tells of joins.

A join is told of when its clause comes into being, after all that is told of its operands. From
then on conditions are only added behind those that the clause has. So what was told of a clause is
how it begins in the statement, whatever the order of the clauses is there.
-/

set_option autoImplicit false

namespace RelationalSelect

namespace Join

structure Grows (j k : Join) : Prop where
  kind : j.kind = k.kind
  source : j.source = k.source
  conditions : j.conditions <+: k.conditions

theorem Grows.refl (j : Join) : j.Grows j := ⟨rfl, rfl, List.prefix_rfl⟩

theorem Grows.trans {j k l : Join} (h : j.Grows k) (h₁ : k.Grows l) : j.Grows l :=
  ⟨h.kind.trans h₁.kind, h.source.trans h₁.source, h.conditions.trans h₁.conditions⟩

theorem grows_push (j : Join) (c : Condition) : j.Grows (j.push c) :=
  ⟨rfl, rfl, List.prefix_append _ _⟩

/-- Clauses are counted like sources, of which the first has the number `n`. -/
def StandsAt (n : Nat) (joins : List Join) (k : Nat) (j : Join) : Prop :=
  ∃ i, k = n + 1 + i ∧ joins[i]? = some j

def AllGrow (n : Nat) (joins : List Join) (n₁ : Nat) (joins₁ : List Join) : Prop :=
  ∀ k j, StandsAt n joins k j → ∃ j₁, StandsAt n₁ joins₁ k j₁ ∧ j.Grows j₁

end Join

namespace Chain

theorem restrict_grows (chain : Chain) (role : Role) (c : Condition) (n : Nat) :
    Join.AllGrow n chain.joins n (chain.restrict role c).joins := by
  rintro _ j ⟨i, rfl, hj⟩
  rcases chain.restrict_cases role c with ⟨-, -, h⟩ | ⟨-, h⟩ <;> rw [h]
  · by_cases hi : chain.joins.length - 1 = i
    · exact ⟨j.push c, ⟨i, rfl, by simp [hi, hj]⟩, j.grows_push c⟩
    · exact ⟨j, ⟨i, rfl, by simp [hi, hj]⟩, .refl j⟩
  · exact ⟨j, ⟨i, rfl, hj⟩, .refl j⟩

section Follow

variable (first : Chain) (kind : JoinKind) (second : Chain) (i : Nat) (c : Condition) (n : Nat)

theorem follow_grows_left :
    Join.AllGrow n first.joins n (first.follow kind second i c).joins := by
  rintro _ j ⟨m, rfl, hj⟩
  refine ⟨j, ⟨m, rfl, ?_⟩, .refl j⟩
  exact (List.getElem?_append_left (List.getElem?_eq_some_iff.1 hj).1).trans hj

theorem standsAt_follow {m : Nat} {j : Join} (h : (second.opened kind)[m]? = some j) :
    Join.StandsAt n (first.follow kind second i c).joins (n + first.sources.length + m)
      (if i = m then j.receive i c else j) := by
  refine ⟨first.joins.length + m, by rw [length_sources]; omega, ?_⟩
  change (first.joins ++ (second.opened kind).modify i (Join.receive i c))[_]? = _
  rw [List.getElem?_append_right (Nat.le_add_right _ _), Nat.add_sub_cancel_left,
    List.getElem?_modify, h]
  rfl

theorem follow_grows_right : Join.AllGrow (n + first.sources.length) second.joins n
    (first.follow kind second i c).joins := by
  rintro _ j ⟨m, rfl, hj⟩
  have hopened : (second.opened kind)[m + 1]? = some j := hj
  have hstands := standsAt_follow first kind second i c n hopened
  rw [show n + first.sources.length + 1 + m = n + first.sources.length + (m + 1) by omega]
  refine ⟨_, hstands, ?_⟩
  split
  · next hi =>
    -- a later clause gets the condition behind the others
    rw [Join.receive, if_neg (by omega)]
    exact j.grows_push c
  · exact .refl j

theorem standsAt_introduced : Join.StandsAt n (first.follow kind second i c).joins
    (n + first.sources.length) (second.introduced kind i c) := by
  have hstands := standsAt_follow first kind second i c n (m := 0) rfl
  rw [Nat.add_zero] at hstands
  unfold introduced
  split
  · next hi =>
    subst hi
    exact hstands
  · next hi =>
    rw [if_neg hi] at hstands
    exact hstands

end Follow

/-- What the journal tells of a join: the clause that it introduces, and the source whose clause has
taken the condition if that is another one. -/
def announcement (s : Slot) (emitted : Join) (taker : Source) : List Event :=
  .emitting emitted :: if s.clause = s.site.first then [] else [.conditionMoved taker]

/-- What is told of a join is true of the clauses that there are, and stays so: the clause has what
the slots of the join and of all before it deal to it, and what it has now begins with that. -/
structure Announced (n : Nat) (joins : List Join) (slots : List Slot) (s : Slot) (emitted : Join)
    (taker : Source) : Prop where
  node : ∃ id left right p, s.site.node = .join id emitted.kind left right p
  begins : ∃ own, Join.StandsAt n joins s.site.first own ∧ emitted.Grows own
  dealt : ∃ earlier later, slots = earlier ++ s :: later ∧
    emitted.conditions = Slot.dealt (earlier ++ [s]) s.site.first
  taken : ∃ j, Join.StandsAt n joins s.clause j ∧ j.source = taker

def Tells (n : Nat) (joins : List Join) (slots : List Slot) (s : Slot) (es : List Event) : Prop :=
  ∃ emitted taker, Announced n joins slots s emitted taker ∧ es = announcement s emitted taker

theorem Tells.mono {n n₁ : Nat} {joins joins₁ : List Join} {slots : List Slot} {s : Slot}
    {es : List Event} (h : Tells n joins slots s es) (hjoins : Join.AllGrow n joins n₁ joins₁)
    (front : List Slot) (hfront : ∀ t ∈ front, t.clause ≠ s.site.first) (back : List Slot) :
    Tells n₁ joins₁ (front ++ (slots ++ back)) s es := by
  obtain ⟨emitted, taker, h, rfl⟩ := h
  refine ⟨emitted, taker, ⟨h.node, ?_, ?_, ?_⟩, rfl⟩
  · obtain ⟨own, hown, hgrows⟩ := h.begins
    obtain ⟨own₁, hown₁, hgrows₁⟩ := hjoins _ _ hown
    exact ⟨own₁, hown₁, hgrows.trans hgrows₁⟩
  · obtain ⟨earlier, later, rfl, hdealt⟩ := h.dealt
    refine ⟨front ++ earlier, later ++ back, by simp, ?_⟩
    rw [List.append_assoc, Slot.dealt_append_of_right hfront, hdealt]
  · obtain ⟨j, hj, hsource⟩ := h.taken
    obtain ⟨j₁, hj₁, hgrows⟩ := hjoins _ _ hj
    exact ⟨j₁, hj₁, hgrows.source.symm.trans hsource⟩

theorem conditions_introduced {second : Chain} {slots slots₁ : List Slot} {s : Slot} {i : Nat}
    (account : Slot.Account slots₁ s.site.first second.clauseLists)
    (hjoin : s.site.node.isJoin = true) (hclause : s.clause = s.site.first + i)
    (below : ∀ t ∈ slots, t.clause ≠ s.site.first)
    (later : ∀ t ∈ slots₁, t.site.node.isJoin = true → s.site.first < t.site.first)
    (kind : JoinKind) : (second.introduced kind i s.condition).conditions =
      Slot.dealt (slots ++ (slots₁ ++ [s])) s.site.first := by
  have hconditions : second.conditions = Slot.dealt slots₁ s.site.first := account 0 _ rfl
  rw [Slot.dealt_append_of_right below, introduced, hconditions]
  by_cases hi : i = 0
  · have hconcat := Slot.dealt_concat_join hjoin hclause later
    have hfirst : s.clause = s.site.first := by omega
    rw [if_pos hi, hfirst] at hconcat
    rw [hconcat, if_pos hi]
  · have hmoved : ∀ t ∈ [s], t.clause ≠ s.site.first := by
      intro t ht
      rw [List.mem_singleton.1 ht]
      omega
    rw [Slot.dealt_append_of_left hmoved, if_neg hi]

def joinSlots (slots : List Slot) : List Slot := slots.filter (·.site.node.isJoin)

structure Reports (names : Naming) (r : Relation) (view : View) (role : Role) (before : List String)
    (chain : Chain) (slots : List Slot) (told : List (List Event)) : Prop where
  routes : chain.Routes names r view role before slots
  tells : List.Forall₂ (Tells before.length chain.joins slots) (joinSlots slots) told
  journal : (ofRelation names r view role before).journal = told.flatten

section Steps

variable {names : Naming} {view : View} {role : Role} {before : List String} {chain : Chain}
  {slots : List Slot} {told : List (List Event)}

theorem Reports.table {id : Identity} {name : String} {columns : List String} {display : String}
    (named : view id = some display) : Reports names (.table id name columns) view role before
      ⟨Source.named name display, [], [], [display]⟩ [] [] := by
  refine ⟨.table _ _ _ _ _, .nil, ?_⟩
  rw [ofRelation, View.display_of_eq named]
  rfl

theorem Reports.aliased {id : Identity} {inner : Relation} {display : String}
    (h : Reports names inner (names.inside id view) role before chain slots told)
    (flat : Flattens names inner (names.inside id view) role before chain)
    (named : view id = some display) (single : chain.joins = []) :
    Reports names (.aliased id inner) view role before
      { chain with source := Source.named chain.source.table display }
      (slots.map (Slot.inAlias (.aliased id inner))) told := by
  refine ⟨h.routes.aliased single _, ?_, ?_⟩
  · -- there is no clause of which something could have been told
    have hnone : joinSlots slots = [] := by
      refine List.eq_nil_iff_forall_not_mem.2 fun s hs => ?_
      obtain ⟨es, -, emitted, taker, ht, -⟩ := exists_of_forall₂ h.tells.flip hs
      obtain ⟨own, ⟨i, -, hown⟩, -⟩ := ht.begins
      simp [single] at hown
    have htold := h.tells
    rw [hnone, List.forall₂_nil_left_iff] at htold
    have hslots : joinSlots (slots.map (Slot.inAlias (.aliased id inner))) =
        (joinSlots slots).map (Slot.inAlias (.aliased id inner)) := List.filter_map
    rw [hslots, hnone, htold]
    exact .nil
  · rw [ofRelation, View.display_of_eq named, Logged.liftM_eq, Logged.ofExcept, Logged.ok_bind,
      Logged.eq_of_outcome (ok_of_flattens flat), Logged.ok_bind,
      if_pos (List.isEmpty_iff.2 single), h.journal]
    simp

theorem Reports.restrict {id : Identity} {inner : Relation} {p : Predicate} {c : Condition}
    (h : Reports names inner view role before chain slots told)
    (flat : Flattens names inner view role before chain)
    (first : role = .leading → before = []) (compiled : view.condition p = .ok c)
    (within : role = .joined → c.within (before ++ chain.entered) = true) :
    Reports names (.selection id inner p) view role before (chain.restrict role c)
      (slots ++ [.ofSelection id inner p role before.length c]) told := by
  refine ⟨h.routes.restrict first flat.sources.length_eq.symm compiled, ?_, ?_⟩
  · have hslots : joinSlots (slots ++ [.ofSelection id inner p role before.length c]) =
        joinSlots slots := by simp [joinSlots, Slot.ofSelection, Relation.isJoin]
    rw [hslots]
    exact h.tells.imp fun s es hs =>
      hs.mono (chain.restrict_grows role c _) [] (by simp) _
  · rw [ofRelation, Logged.eq_of_outcome (ok_of_flattens flat), Logged.ok_bind, compiled,
      Logged.liftM_eq, Logged.ofExcept, Logged.ok_bind, if_neg (by simpa using within), h.journal]
    simp

section Follow

variable {id : Identity} {kind : JoinKind} {left right : Relation} {p : Predicate} {c : Condition}
  {i : Nat} {second : Chain} {slots₁ : List Slot} {told₁ : List (List Event)} {s : Slot}

theorem announced_follow (account : Slot.Account slots₁ s.site.first second.clauseLists)
    (hnode : s.site.node = .join id kind left right p) {n : Nat}
    (hfirst : s.site.first = n + chain.sources.length) (hclause : s.clause = s.site.first + i)
    (below : ∀ t ∈ slots, t.clause < s.site.first)
    (later : ∀ t ∈ slots₁, t.site.node.isJoin = true → s.site.first < t.site.first)
    {taker : Join} (htaker : (second.opened kind)[i]? = some taker) :
    Announced n (chain.follow kind second i s.condition).joins (slots ++ (slots₁ ++ [s])) s
      (second.introduced kind i s.condition) taker.source := by
  have hjoin : s.site.node.isJoin = true := by
    rw [hnode]
    rfl
  refine ⟨⟨id, left, right, p, hnode⟩, ?_, ?_, ?_⟩
  · rw [hfirst]
    exact ⟨_, chain.standsAt_introduced kind second i s.condition n, .refl _⟩
  · refine ⟨slots ++ slots₁, [], (List.append_assoc ..).symm, ?_⟩
    rw [List.append_assoc]
    exact conditions_introduced account hjoin hclause (fun t ht => Nat.ne_of_lt (below t ht))
      later kind
  · have hstands := chain.standsAt_follow kind second i s.condition n htaker
    rw [if_pos rfl, ← hfirst, ← hclause] at hstands
    exact ⟨_, hstands, Join.source_receive i s.condition taker⟩

theorem tells_follow (h : Reports names left view role before chain slots told)
    (h₁ : Reports names right view .joined (before ++ chain.entered) second slots₁ told₁)
    (length : (before ++ chain.entered).length = before.length + chain.sources.length)
    (below : ∀ t ∈ slots, t.clause < s.site.first)
    (later : ∀ t ∈ slots₁, t.site.node.isJoin = true → s.site.first < t.site.first)
    (hjoin : s.site.node.isJoin = true) {es : List Event}
    (hs : Tells before.length (chain.follow kind second i c).joins (slots ++ (slots₁ ++ [s]))
      s es) :
    List.Forall₂
      (Tells before.length (chain.follow kind second i c).joins (slots ++ (slots₁ ++ [s])))
      (joinSlots (slots ++ (slots₁ ++ [s]))) (told ++ (told₁ ++ [es])) := by
  have hslots : joinSlots (slots ++ (slots₁ ++ [s])) =
      joinSlots slots ++ (joinSlots slots₁ ++ [s]) := by simp [joinSlots, hjoin]
  rw [hslots]
  refine List.rel_append ?_ (List.rel_append ?_ (.cons hs .nil))
  · exact h.tells.imp fun t es ht =>
      ht.mono (chain.follow_grows_left kind second i c before.length) [] (by simp) _
  · have htells := h₁.tells
    rw [length] at htells
    refine ((List.forall₂_and_left _ _).2 ⟨fun t ht => ht, htells⟩).imp fun t es ⟨ht, htold⟩ => ?_
    refine htold.mono (chain.follow_grows_right kind second i c before.length) slots
      (fun u hu => ?_) _
    obtain ⟨hmem, htjoin⟩ := List.mem_filter.1 ht
    have hlt := below u hu
    have hgt := later t hmem htjoin
    omega

theorem Reports.follow (h : Reports names left view role before chain slots told)
    (h₁ : Reports names right view .joined (before ++ chain.entered) second slots₁ told₁)
    (flat : Flattens names left view role before chain)
    (flat₁ : Flattens names right view .joined (before ++ chain.entered) second)
    (single : kind = .leftOuter → second.joins = []) (compiled : view.condition p = .ok c)
    (settles : Join.Settles c (before ++ chain.entered) (second.opened kind) i) : ∃ es,
    Reports names (.join id kind left right p) view role before (chain.follow kind second i c)
      (slots ++ (slots₁ ++ [.ofJoin id kind left right p before.length i c]))
      (told ++ (told₁ ++ [es])) := by
  let s := Slot.ofJoin id kind left right p before.length i c
  have hfirst : s.site.first = before.length + chain.sources.length := by
    rw [← flat.sources.length_eq]
    rfl
  have hlength : (before ++ chain.entered).length = before.length + chain.sources.length := by
    rw [List.length_append, flat.scoped.length_entered]
  have below : ∀ t ∈ slots, t.clause < s.site.first := by
    rw [hfirst]
    exact h.routes.below
  have later : ∀ t ∈ slots₁, t.site.node.isJoin = true → s.site.first < t.site.first := by
    rw [hfirst]
    exact h₁.routes.later_joined flat.scoped.length_entered
  have account := h₁.routes.account
  rw [hlength, ← hfirst] at account
  obtain ⟨taker, htaker, hclauses⟩ := clauses_of_settles settles
  have hannounced := announced_follow account rfl hfirst rfl below later htaker
  refine ⟨_, h.routes.follow h₁.routes flat.scoped.length_entered flat.sources.length_eq.symm
    flat₁.sources.length_eq.symm compiled settles,
    tells_follow h h₁ hlength below later rfl ⟨_, _, hannounced, rfl⟩, ?_⟩
  rw [ofRelation, Logged.eq_of_outcome (ok_of_flattens flat), Logged.ok_bind]
  dsimp only
  rw [Logged.eq_of_outcome (ok_of_flattens flat₁), Logged.ok_bind, if_neg (by simpa using single),
    compiled, Logged.liftM_eq, Logged.ofExcept, Logged.ok_bind, hclauses, Logged.ok_bind,
    h.journal, h₁.journal]
  simp [announcement, s, Slot.ofJoin]

end Follow

end Steps

theorem Flattens.reports {names : Naming} {r : Relation} {view : View} {role : Role}
    {before : List String} {chain : Chain} (h : Flattens names r view role before chain)
    (first : role = .leading → before = []) :
    ∃ slots told, Reports names r view role before chain slots told := by
  induction h with
  | table named => exact ⟨_, _, .table named⟩
  | aliased named flat single ih =>
    obtain ⟨slots, told, hr⟩ := ih first
    exact ⟨_, _, hr.aliased flat named single⟩
  | selection flat compiled within ih =>
    obtain ⟨slots, told, hr⟩ := ih first
    exact ⟨_, _, hr.restrict flat first compiled within⟩
  | join flatLeft flatRight single compiled settles ihl ihr =>
    obtain ⟨slots, told, hr⟩ := ihl first
    obtain ⟨slots₁, told₁, hr₁⟩ := ihr fun hrole => nomatch hrole
    obtain ⟨es, hr₂⟩ := hr.follow hr₁ flatLeft flatRight single compiled settles
    exact ⟨_, _, hr₂⟩

end Chain

end RelationalSelect
