import RelationalSelect.Proofs.Scope

set_option autoImplicit false

namespace RelationalSelect

namespace Relation

def directAliases : Relation → Bool
  | .table _ _ _ => true
  | .aliased _ (.table _ _ _) => true
  | .aliased _ _ => false
  | .selection _ inner _ => inner.directAliases
  | .join _ _ left right _ => left.directAliases && right.directAliases

def mentions (root : Relation) (p : Predicate) (o : Relation) : Bool :=
  p.refs.any fun x => root.carrier x.owner == some o

def clauseKinds (right : Relation) : List (Relation × JoinKind) :=
  right.occurrences.zip (.inner :: right.joinKinds)

/-- The kind of the clause in which the condition of an inner join settles. -/
def settlingKind (root right : Relation) (p : Predicate) : JoinKind :=
  match (right.clauseKinds.filter fun e => root.mentions p e.1).getLast? with
  | some e => e.2
  | none => .inner

/-- The kind of the clause that gets the predicate of a selection. WHERE filters as well as the
clause of an inner join. -/
def selectionKind (inner : Relation) : Role → JoinKind
  | .leading => .inner
  | .joined => inner.joinKinds.getLast?.getD .inner

/-- The predicates outside the conditions and the right operands of outer joins, with the kinds of
their clauses. -/
def filters (root : Relation) : Relation → Role → List (Predicate × JoinKind)
  | .table _ _ _, _ | .aliased _ _, _ => []
  | .selection _ inner p, role => filters root inner role ++ [(p, inner.selectionKind role)]
  | .join _ .inner left right p, role =>
      filters root left role ++ filters root right .joined ++ [(p, root.settlingKind right p)]
  | .join _ .leftOuter left _ _, role => filters root left role

theorem mem_placed_of_mem_filters {root r : Relation} {role : Role} {e : Predicate × JoinKind}
    (h : e ∈ filters root r role) : ⟨[], e.1⟩ ∈ r.placed := by
  induction r generalizing role with
  | table | aliased => simp [filters] at h
  | selection id inner p ih =>
    cases List.mem_append.1 h with
    | inl h => exact List.mem_append_left _ (ih h)
    | inr h =>
      rw [List.mem_singleton.1 h]
      exact List.mem_append_right _ (List.mem_singleton_self _)
  | join id kind left right p ihl ihr =>
    cases kind with
    | inner =>
      simp only [filters, List.mem_append, List.mem_singleton] at h
      simp only [placed, List.mem_append, List.mem_singleton]
      rcases h with (h | h) | rfl
      · exact .inl (.inl (ihl h))
      · exact .inl (.inr (ihr h))
      · exact .inr rfl
    | leftOuter => exact List.mem_append_left _ (List.mem_append_left _ (ihl h))

theorem wrapped_of_directAliases {r a : Relation} (h : r.directAliases = true)
    (ha : a ∈ r.occurrences) : a.wrapped = [] := by
  induction r with
  | table =>
    rw [List.mem_singleton.1 ha]
    rfl
  | aliased id inner =>
    rw [List.mem_singleton.1 ha]
    cases inner with
    | table => rfl
    | aliased | selection | join => simp [directAliases] at h
  | selection _ _ _ ih => exact ih h ha
  | join _ _ _ _ _ ihl ihr =>
    simp only [directAliases, Bool.and_eq_true] at h
    cases List.mem_append.1 ha with
    | inl ha => exact ihl h.1 ha
    | inr ha => exact ihr h.2 ha

theorem aliasesApart_of_direct {r : Relation} (h : r.directAliases = true) : r.AliasesApart := by
  intro a ha b hb
  rw [wrapped_of_directAliases h ha] at hb
  simp at hb

end Relation

theorem getLast?_filter {α : Type} {p : α → Bool} {l : List α} {i : Nat} {a : α}
    (ha : l[i]? = some a) (hp : p a = true) (hback : ∀ m b, i < m → l[m]? = some b → p b = false) :
    (l.filter p).getLast? = some a := by
  obtain ⟨hi, rfl⟩ := List.getElem?_eq_some_iff.1 ha
  have hdrop : (l.drop (i + 1)).filter p = [] := by
    apply List.filter_eq_nil_iff.2
    intro b hb
    obtain ⟨m, hm⟩ := List.getElem?_of_mem hb
    rw [List.getElem?_drop] at hm
    simp [hback _ b (by omega) hm]
  have hsplit : l.filter p = (l.take i).filter p ++ [l[i]] := by
    calc l.filter p = (l.take i ++ l.drop i).filter p := by rw [List.take_append_drop]
      _ = (l.take i).filter p ++ [l[i]] := by
        rw [List.filter_append, List.drop_eq_getElem_cons hi, List.filter_cons_of_pos hp, hdrop]
  rw [hsplit, List.getLast?_concat]

theorem exists_mem_modify {α : Type} {f : α → α} {P : α → Prop} (hf : ∀ a, P a → P (f a))
    {l : List α} (h : ∃ a ∈ l, P a) (i : Nat) : ∃ a ∈ l.modify i f, P a := by
  obtain ⟨a, ha, hp⟩ := h
  obtain ⟨m, hm⟩ := List.getElem?_of_mem ha
  by_cases him : i = m
  · exact ⟨f a, List.mem_of_getElem? (i := m) (by simp [hm, him]), hf a hp⟩
  · exact ⟨a, List.mem_of_getElem? (i := m) (by simp [hm, him]), hp⟩

namespace Naming.Names

variable {names : Naming} {root : Relation}

theorem mentions_iff (hn : names.Names root.occurrences) {p : Predicate} {c : Condition}
    (compiled : names.outside.condition p = .ok c) {o : Relation} (ho : o ∈ root.occurrences)
    {t : String} (ht : names.nameOf o.id = some t) : root.mentions p o = true ↔ t ∈ c.tables := by
  have hrefs := (View.rel_of_condition compiled).refs
  unfold Relation.mentions
  rw [List.any_eq_true]
  constructor
  · rintro ⟨x, hx, hcarrier⟩
    obtain ⟨col, hcol, hv, -⟩ := exists_of_forall₂ (List.Forall₂.flip hrefs) hx
    rw [hn.outside_eq, eq_of_beq hcarrier, Option.bind_some, ht] at hv
    rw [Option.some.inj hv]
    exact List.mem_map_of_mem hcol
  · intro hmem
    obtain ⟨col, hcol, rfl⟩ := List.mem_map.1 hmem
    obtain ⟨x, hx, hv, -⟩ := exists_of_forall₂ hrefs hcol
    rw [hn.outside_eq] at hv
    obtain ⟨r, hr, hrt⟩ := Option.bind_eq_some_iff.1 hv
    have hid := hn.nameOf_inj hrt ht
    refine ⟨x, hx, ?_⟩
    rw [hr, hn.eq_of_id_eq (Relation.carrier_mem hr) ho hid]
    exact beq_self_eq_true _

end Naming.Names

namespace Chain

variable {names : Naming} {root : Relation}

/-- An operand of a tree, and what is visible where it stands: names of occurrences before it. -/
def Stands (names : Naming) (root r : Relation) (before : List String) : Prop :=
  ∃ front back, root.occurrences = front ++ r.occurrences ++ back ∧
    ∀ t ∈ before, ∃ o ∈ front, names.nameOf o.id = some t

theorem Stands.mem {r o : Relation} {before : List String} (h : Stands names root r before)
    (ho : o ∈ r.occurrences) : o ∈ root.occurrences := by
  obtain ⟨front, back, hsplit, -⟩ := h
  rw [hsplit]
  exact List.mem_append_left _ (List.mem_append_right _ ho)

theorem Stands.ids_nodup {r : Relation} {before : List String} (h : Stands names root r before)
    (hn : names.Names root.occurrences) : (r.occurrences.map Relation.id).Nodup := by
  obtain ⟨front, back, hsplit, -⟩ := h
  have hnodup := hn.ids_nodup
  rw [hsplit, List.map_append, List.map_append] at hnodup
  exact (List.nodup_append.1 (List.nodup_append.1 hnodup).1).2.1

theorem Stands.left {id : Identity} {kind : JoinKind} {left right : Relation} {p : Predicate}
    {before : List String} (h : Stands names root (.join id kind left right p) before) :
    Stands names root left before := by
  obtain ⟨front, back, hsplit, hbefore⟩ := h
  exact ⟨front, right.occurrences ++ back, by simp [hsplit, Relation.occurrences], hbefore⟩

theorem Stands.right (hn : names.Names root.occurrences) {id : Identity} {kind : JoinKind}
    {left right : Relation} {p : Predicate} {role : Role} {before : List String} {first : Chain}
    (h : Stands names root (.join id kind left right p) before) (direct : left.directAliases = true)
    (flat : Flattens names left names.outside role before first) :
    Stands names root right (before ++ first.entered) := by
  have hentered := flat.entered hn fun o ho => h.left.mem ho
  obtain ⟨front, back, hsplit, hbefore⟩ := h
  refine ⟨front ++ left.occurrences, back, by simp [hsplit, Relation.occurrences], fun t ht => ?_⟩
  cases List.mem_append.1 ht with
  | inl hb =>
    obtain ⟨o, ho, hot⟩ := hbefore t hb
    exact ⟨o, List.mem_append_left _ ho, hot⟩
  | inr he =>
    obtain ⟨o, ho, hot | ⟨b, hb, -⟩⟩ := exists_of_forall₂ hentered he
    · exact ⟨o, List.mem_append_right _ ho, hot⟩
    · rw [Relation.wrapped_of_directAliases direct ho] at hb
      contradiction

theorem Stands.position {r : Relation} {before : List String} (h : Stands names root r before)
    (hn : names.Names root.occurrences) {k m : Nat} {o o₁ : Relation}
    (hk : r.occurrences[k]? = some o) (hm : r.occurrences[m]? = some o₁) {t : String}
    (ht : names.nameOf o.id = some t) (ht₁ : names.nameOf o₁.id = some t) : k = m := by
  have hkid : (r.occurrences.map Relation.id)[k]? = some o.id := by simp [hk]
  have hmid : (r.occurrences.map Relation.id)[m]? = some o.id := by
    simp [hm, hn.nameOf_inj ht₁ ht]
  obtain ⟨hlt, hget⟩ := List.getElem?_eq_some_iff.1 hkid
  obtain ⟨hlt₁, hget₁⟩ := List.getElem?_eq_some_iff.1 hmid
  exact (h.ids_nodup hn).getElem_inj_iff.1 (hget.trans hget₁.symm)

theorem Stands.not_mem {r o : Relation} {before : List String} (h : Stands names root r before)
    (hn : names.Names root.occurrences) (ho : o ∈ r.occurrences) {t : String}
    (ht : names.nameOf o.id = some t) : t ∉ before := by
  obtain ⟨front, back, hsplit, hbefore⟩ := h
  intro hmem
  obtain ⟨o₁, ho₁, ht₁⟩ := hbefore t hmem
  have hnodup := hn.ids_nodup
  rw [hsplit, List.map_append, List.map_append] at hnodup
  have hne := (List.nodup_append.1 (List.nodup_append.1 hnodup).1).2.2
  exact hne _ (List.mem_map_of_mem ho₁) _ (List.mem_map_of_mem ho) (hn.nameOf_inj ht₁ ht)

theorem Flattens.clause_at (hn : names.Names root.occurrences) {r : Relation} {role : Role}
    {before : List String} {chain : Chain} (h : Flattens names r names.outside role before chain)
    (hr : ∀ o ∈ r.occurrences, o ∈ root.occurrences) {m : Nat} {j : Join}
    (hj : (chain.opened .inner)[m]? = some j) : ∃ o, r.clauseKinds[m]? = some (o, j.kind) ∧
      r.occurrences[m]? = some o ∧ names.nameOf o.id = some j.source.name := by
  have hs := (List.forall₂_and_left _ _).2 ⟨hr, h.sources⟩
  have hsource : chain.sources[m]? = some j.source := by
    rw [← map_source_opened chain .inner, List.getElem?_map, hj]
    rfl
  have hkind : (JoinKind.inner :: r.joinKinds)[m]? = some j.kind := by
    rw [← h.kinds]
    exact (List.getElem?_map (f := Join.kind) (l := chain.opened .inner)).trans (by rw [hj]; rfl)
  obtain ⟨hm, hget⟩ := List.getElem?_eq_some_iff.1 hsource
  have hm₁ : m < r.occurrences.length := by rw [hs.length_eq]; exact hm
  obtain ⟨ho, base, name, hb, hv, hnamed⟩ := hs.get hm₁ hm
  have hocc : r.occurrences[m]? = some r.occurrences[m] := List.getElem?_eq_getElem hm₁
  refine ⟨r.occurrences[m], ?_, hocc, ?_⟩
  · unfold Relation.clauseKinds
    exact List.getElem?_zip_eq_some.2 ⟨hocc, hkind⟩
  · simp only [List.get_eq_getElem, hget] at ho hv hnamed
    rw [← hn.outside_of_mem ho, hv, hnamed, Source.name_named]

section Settling

variable {right : Relation} {before : List String} {second : Chain} {p : Predicate} {c : Condition}
  {i : Nat}

theorem not_mentions_of_settles (hn : names.Names root.occurrences)
    (stands : Stands names root right before)
    (flat : Flattens names right names.outside .joined before second)
    (compiled : names.outside.condition p = .ok c)
    (settles : Join.Settles c before (second.opened .inner) i) {m : Nat} {e : Relation × JoinKind}
    (him : i < m) (he : right.clauseKinds[m]? = some e) : root.mentions p e.1 = false := by
  obtain ⟨-, hkind⟩ := List.getElem?_zip_eq_some.1 he
  rw [← flat.kinds] at hkind
  change ((second.opened .inner).map Join.kind)[m]? = _ at hkind
  rw [List.getElem?_map] at hkind
  obtain ⟨j, hj, -⟩ := Option.map_eq_some_iff.1 hkind
  obtain ⟨o, hz, hocc, hname⟩ := flat.clause_at hn (fun o ho => stands.mem ho) hj
  have ho := List.mem_of_getElem? hocc
  obtain rfl : e = (o, j.kind) := Option.some.inj (he.symm.trans hz)
  apply Bool.eq_false_iff.2
  intro hmentions
  have ht := (hn.mentions_iff compiled (stands.mem ho) hname).1 hmentions
  cases List.mem_append.1 ((Condition.within_iff c _).1 settles.within _ ht) with
  | inl hb => exact stands.not_mem hn ho hname hb
  | inr hs =>
    obtain ⟨k, hk, hks⟩ := exists_of_mem_map_take hs
    obtain ⟨j₁, hj₁, hname₁⟩ := Option.map_eq_some_iff.1 hks
    obtain ⟨o₁, -, hocc₁, hn₁⟩ := flat.clause_at hn (fun o ho => stands.mem ho) hj₁
    have hkm := stands.position hn hocc₁ hocc hn₁ (by rw [hname, hname₁])
    omega

theorem mem_tables_of_settles (settles : Join.Settles c before (second.opened .inner) i)
    (hi : 0 < i) {j : Join} (hj : (second.opened .inner)[i]? = some j) :
    j.source.name ∈ c.tables := by
  apply Decidable.byContradiction
  intro hnot
  have hfirst := settles.first (i - 1) (by omega)
  rw [Nat.sub_add_cancel hi] at hfirst
  have hwithin :
      c.within (before ++ ((second.opened .inner).take i).map (·.source.name)) = true := by
    apply (Condition.within_iff c _).2
    intro t ht
    cases List.mem_append.1 ((Condition.within_iff c _).1 settles.within t ht) with
    | inl hb => exact List.mem_append_left _ hb
    | inr hs =>
      obtain ⟨k, hk, hks⟩ := exists_of_mem_map_take hs
      refine List.mem_append_right _ (mem_map_take_of (Nat.lt_of_le_of_ne hk fun hki => ?_) hks)
      rw [hki, hj] at hks
      rw [← Option.some.inj hks] at ht
      exact hnot ht
  rw [hwithin] at hfirst
  contradiction

theorem kind_of_settles (hn : names.Names root.occurrences)
    (stands : Stands names root right before)
    (flat : Flattens names right names.outside .joined before second)
    (compiled : names.outside.condition p = .ok c)
    (settles : Join.Settles c before (second.opened .inner) i) {j : Join}
    (hj : (second.opened .inner)[i]? = some j) : root.settlingKind right p = j.kind := by
  have later := fun m e => not_mentions_of_settles hn stands flat compiled settles (m := m) (e := e)
  obtain ⟨o, hz, hocc, hname⟩ := flat.clause_at hn (fun o ho => stands.mem ho) hj
  have hmentions := hn.mentions_iff compiled (stands.mem (List.mem_of_getElem? hocc)) hname
  unfold Relation.settlingKind
  cases ho : root.mentions p o with
  | true => rw [getLast?_filter (p := fun e => root.mentions p e.1) hz ho later]
  | false =>
    obtain rfl : i = 0 := by
      apply Nat.eq_zero_of_not_pos
      intro hi
      rw [hmentions.2 (mem_tables_of_settles settles hi hj)] at ho
      contradiction
    have hnone : right.clauseKinds.filter (fun e => root.mentions p e.1) = [] := by
      apply List.filter_eq_nil_iff.2
      intro e he
      obtain ⟨m, hm⟩ := List.getElem?_of_mem he
      rcases Nat.eq_zero_or_pos m with rfl | hpos
      · obtain rfl : e = (o, j.kind) := Option.some.inj (hm.symm.trans hz)
        simp [ho]
      · simp [later m e hpos hm]
    rw [hnone]
    cases hj
    rfl

end Settling

/-- A condition is tested in a clause of some kind. The conditions on the first source will be
tested by WHERE or by the clause of an inner join. -/
def Tests (chain : Chain) (kind : JoinKind) (c : Condition) : Prop :=
  (kind = .inner ∧ c ∈ chain.conditions) ∨ ∃ j ∈ chain.joins, j.kind = kind ∧ c ∈ j.conditions

theorem Tests.restrict {chain : Chain} {kind : JoinKind} {c : Condition} (h : chain.Tests kind c)
    (role : Role) (d : Condition) : (chain.restrict role d).Tests kind c := by
  rcases chain.restrict_cases role d with ⟨-, -, hr⟩ | ⟨-, hr⟩ <;> rw [hr]
  · cases h with
    | inl h => exact .inl h
    | inr h =>
      refine .inr (exists_mem_modify (f := (·.push d)) (fun j hj => ?_) h _)
      exact ⟨hj.1, List.mem_append_left _ hj.2⟩
  · rcases h with ⟨hk, hc⟩ | h
    · exact .inl ⟨hk, List.mem_append_left _ hc⟩
    · exact .inr h

theorem tests_restrict {chain : Chain} {r : Relation}
    (hkinds : chain.joins.map Join.kind = r.joinKinds) (role : Role) (c : Condition) :
    (chain.restrict role c).Tests (r.selectionKind role) c := by
  rcases chain.restrict_cases role c with ⟨hrole, hne, hr⟩ | ⟨hcase, hr⟩ <;> rw [hr]
  · have hlast := List.getLast?_eq_some_getLast hne
    have hkind : r.selectionKind role = (chain.joins.getLast hne).kind := by
      simp only [hrole, Relation.selectionKind, ← hkinds, List.getLast?_map, hlast, Option.map_some,
        Option.getD_some]
    rw [List.getLast?_eq_getElem?] at hlast
    refine .inr ⟨(chain.joins.getLast hne).push c,
      List.mem_of_getElem? (i := chain.joins.length - 1) ?_, hkind.symm,
      List.mem_append_right _ (List.mem_singleton_self c)⟩
    rw [List.getElem?_modify, hlast]
    simp
  · refine .inl ⟨?_, List.mem_append_right _ (List.mem_singleton_self c)⟩
    cases hcase with
    | inl h =>
      rw [h]
      rfl
    | inr h =>
      rw [h] at hkinds
      cases role <;> simp [Relation.selectionKind, ← hkinds]

theorem Tests.follow {first : Chain} {kind : JoinKind} {c : Condition} (h : first.Tests kind c)
    (kind₁ : JoinKind) (second : Chain) (i : Nat) (d : Condition) :
    (first.follow kind₁ second i d).Tests kind c := by
  rcases h with h | ⟨j, hj, h⟩
  · exact .inl h
  · exact .inr ⟨j, List.mem_append_left _ hj, h⟩

theorem Tests.behind {second : Chain} {kind : JoinKind} {c : Condition} (h : second.Tests kind c)
    (first : Chain) (i : Nat) (d : Condition) : (first.follow .inner second i d).Tests kind c := by
  have hopened : ∃ j ∈ second.opened .inner, j.kind = kind ∧ c ∈ j.conditions := by
    rcases h with ⟨rfl, hc⟩ | ⟨j, hj, h⟩
    · exact ⟨_, List.mem_cons_self, rfl, hc⟩
    · exact ⟨j, List.mem_cons_of_mem _ hj, h⟩
  obtain ⟨j, hj, h⟩ := exists_mem_modify (f := Join.receive i d) (fun j hj => by
    refine ⟨(j.kind_receive i d).trans hj.1, ?_⟩
    exact (Join.conditions_receive i d j).mem_iff.2 (List.mem_cons_of_mem _ hj.2)) hopened i
  exact .inr ⟨j, List.mem_append_right _ hj, h⟩

theorem tests_follow {second : Chain} {i : Nat} {j : Join}
    (hj : (second.opened .inner)[i]? = some j) (first : Chain) (c : Condition) :
    (first.follow .inner second i c).Tests j.kind c := by
  refine .inr ⟨j.receive i c, List.mem_append_right _ (List.mem_of_getElem? (i := i) ?_),
    j.kind_receive i c, ?_⟩
  · rw [List.getElem?_modify, hj]
    simp
  · exact (Join.conditions_receive i c j).mem_iff.2 List.mem_cons_self

theorem Flattens.tests (hn : names.Names root.occurrences) {r : Relation} {role : Role}
    {before : List String} {chain : Chain} (h : Flattens names r names.outside role before chain)
    (direct : r.directAliases = true) (stands : Stands names root r before) :
    ∀ e ∈ root.filters r role, ∃ c, names.outside.condition e.1 = .ok c ∧ chain.Tests e.2 c := by
  induction r generalizing role before chain with
  | table | aliased =>
    intro e he
    simp [Relation.filters] at he
  | selection id inner p ih =>
    cases h with
    | @selection _ _ _ _ _ _ chain c flat compiled within =>
      intro e he
      cases List.mem_append.1 he with
      | inl he =>
        obtain ⟨d, hd, ht⟩ := ih flat direct stands e he
        exact ⟨d, hd, ht.restrict role c⟩
      | inr he =>
        rw [List.mem_singleton.1 he]
        exact ⟨c, compiled, tests_restrict flat.kinds role c⟩
  | join id kind left right p ihl ihr =>
    simp only [Relation.directAliases, Bool.and_eq_true] at direct
    cases h with
    | @join _ _ _ _ _ _ _ _ first second c i flatLeft flatRight single compiled settles =>
      have hright := stands.right hn direct.1 flatLeft
      cases kind with
      | inner =>
        intro e he
        simp only [Relation.filters, List.mem_append, List.mem_singleton] at he
        rcases he with (he | he) | rfl
        · obtain ⟨d, hd, ht⟩ := ihl flatLeft direct.1 stands.left e he
          exact ⟨d, hd, ht.follow .inner second i c⟩
        · obtain ⟨d, hd, ht⟩ := ihr flatRight direct.2 hright e he
          exact ⟨d, hd, ht.behind first i c⟩
        · have hj := List.getElem?_eq_getElem settles.lt
          refine ⟨c, compiled, ?_⟩
          change Chain.Tests _ (root.settlingKind right p) c
          rw [kind_of_settles hn hright flatRight compiled settles hj]
          exact tests_follow hj first c
      | leftOuter =>
        intro e he
        obtain ⟨d, hd, ht⟩ := ihl flatLeft direct.1 stands.left e he
        exact ⟨d, hd, ht.follow .leftOuter second i c⟩

end Chain

end RelationalSelect
