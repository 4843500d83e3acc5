import RelationalSelect.Proofs.Conjuncts
import RelationalSelect.Proofs.Scope
import RelationalSelect.Proofs.Sites

/-!
Every predicate of a tree goes to one clause.

The conjuncts of a statement are dealt out by slots: one slot for each predicate, with the clause
that took it. A clause holds the condition of the join that introduces it first, if it is there, and
then the others, innermost first. Predicates that share a clause are nested: their nodes stand on
the way from one occurrence to the root.
-/

set_option autoImplicit false

namespace RelationalSelect

/-- A column that stands for an attribute has the name of the attribute. -/
def Column.Stands (x : Attribute) (c : Column) : Prop := c.name = x.name

theorem Column.stands_of_condition {view : View} {p : Predicate} {c : Condition}
    (h : view.condition p = .ok c) : p.Rel Column.Stands c :=
  Expr.rel_of_mapM (fun _ _ hx => (View.column_eq_ok hx).2) h

/-- A predicate, its condition and the clause that took it. -/
structure Slot where
  site : Site
  condition : Condition
  clause : Nat

namespace Slot

def introduces (s : Slot) : Bool := s.site.node.isJoin && s.clause == s.site.first

def ofSelection (id : Identity) (inner : Relation) (p : Predicate) (role : Role) (n : Nat)
    (c : Condition) : Slot :=
  let clause := inner.selectionClause role n
  ⟨⟨⟨[], p⟩, .selection id inner p, clause, clause⟩, c, clause⟩

def ofJoin (id : Identity) (kind : JoinKind) (left right : Relation) (p : Predicate) (n i : Nat)
    (c : Condition) : Slot :=
  let first := n + left.occurrences.length
  ⟨⟨⟨[], p⟩, .join id kind left right p, first, first + right.occurrences.length - 1⟩, c, first + i⟩

/-- What the slots deal to a clause. -/
def dealt (slots : List Slot) (k : Nat) : List Condition :=
  let here := slots.filter (·.clause == k)
  (here.filter introduces ++ here.filter (!·.introduces)).map condition

theorem dealt_append_of_left {l m : List Slot} {k : Nat} (h : ∀ s ∈ m, s.clause ≠ k) :
    dealt (l ++ m) k = dealt l k := by
  have hm : m.filter (·.clause == k) = [] := List.filter_eq_nil_iff.2 fun s hs => by simp [h s hs]
  simp [dealt, hm]

theorem dealt_append_of_right {l m : List Slot} {k : Nat} (h : ∀ s ∈ l, s.clause ≠ k) :
    dealt (l ++ m) k = dealt m k := by
  have hl : l.filter (·.clause == k) = [] := List.filter_eq_nil_iff.2 fun s hs => by simp [h s hs]
  simp [dealt, hl]

theorem dealt_concat (l : List Slot) {s : Slot} (h : s.introduces = false) :
    dealt (l ++ [s]) s.clause = dealt l s.clause ++ [s.condition] := by simp [dealt, h]

theorem dealt_concat_of_introduces {l : List Slot} {s : Slot} (h : s.introduces = true)
    (alone : ∀ t ∈ l, t.clause = s.clause → t.introduces = false) :
    dealt (l ++ [s]) s.clause = s.condition :: dealt l s.clause := by
  have hl : (l.filter (·.clause == s.clause)).filter introduces = [] := by
    refine List.filter_eq_nil_iff.2 fun t ht => ?_
    obtain ⟨ht, hclause⟩ := List.mem_filter.1 ht
    simp [alone t ht (by simpa using hclause)]
  simp [dealt, h, hl]

/-- A join condition leads the clause that the join introduces, and stands last in a later one. -/
theorem dealt_concat_join {l : List Slot} {s : Slot} {i : Nat} (hjoin : s.site.node.isJoin = true)
    (hi : s.clause = s.site.first + i)
    (later : ∀ t ∈ l, t.site.node.isJoin = true → s.site.first < t.site.first) :
    dealt (l ++ [s]) s.clause =
      if i = 0 then s.condition :: dealt l s.clause else dealt l s.clause ++ [s.condition] := by
  by_cases hzero : i = 0
  · have hs : s.introduces = true := by simp [introduces, hjoin, hi, hzero]
    rw [if_pos hzero]
    refine dealt_concat_of_introduces hs fun t ht hclause => ?_
    cases htjoin : t.site.node.isJoin with
    | false => simp [introduces, htjoin]
    | true =>
      have := later t ht htjoin
      simp [introduces, htjoin]
      omega
  · have hs : s.introduces = false := by simp [introduces, hi, hzero]
    rw [if_neg hzero]
    exact dealt_concat l hs

def inAlias (a : Relation) (s : Slot) : Slot :=
  { s with site := { s.site with around := s.site.around ++ [a] } }

theorem dealt_map_inAlias (a : Relation) (slots : List Slot) (k : Nat) :
    dealt (slots.map (inAlias a)) k = dealt slots k := by
  have hclause : ((·.clause == k) ∘ inAlias a) = (·.clause == k) := rfl
  have hintroduces : introduces ∘ inAlias a = introduces := rfl
  have hnot : ((!·.introduces) ∘ inAlias a) = (!·.introduces) := rfl
  simp only [dealt, List.filter_map, hclause, hintroduces, hnot, ← List.map_append, List.map_map]
  rfl

/-- Slots account for clauses that are counted from a position on. -/
def Account (slots : List Slot) (n : Nat) (clauses : List (List Condition)) : Prop :=
  ∀ k cs, clauses[k]? = some cs → cs = dealt slots (n + k)

theorem Account.append {l m : List Slot} {n : Nat} {cs ds : List (List Condition)}
    (hl : Account l n cs) (hm : Account m (n + cs.length) ds)
    (below : ∀ s ∈ l, s.clause < n + cs.length) (above : ∀ s ∈ m, n + cs.length ≤ s.clause) :
    Account (l ++ m) n (cs ++ ds) := by
  intro k c hc
  cases Nat.lt_or_ge k cs.length with
  | inl hk =>
    rw [List.getElem?_append_left hk] at hc
    rw [hl k c hc, dealt_append_of_left]
    intro s hs
    have := above s hs
    omega
  | inr hk =>
    rw [List.getElem?_append_right hk] at hc
    rw [hm _ c hc, dealt_append_of_right]
    · congr 1
      omega
    · intro s hs
      have := below s hs
      omega

theorem Account.modify {slots : List Slot} {n m : Nat} {clauses : List (List Condition)}
    (ha : Account slots n clauses) {s : Slot} (hs : s.clause = n + m)
    {f : List Condition → List Condition}
    (hf : f (dealt slots s.clause) = dealt (slots ++ [s]) s.clause) :
    Account (slots ++ [s]) n (clauses.modify m f) := by
  intro k c hc
  rw [List.getElem?_modify] at hc
  obtain ⟨c₁, hc₁, rfl⟩ := Option.map_eq_some_iff.1 hc
  rw [ha k c₁ hc₁]
  by_cases hk : m = k
  · rw [if_pos hk, ← hk, ← hs, hf]
  · rw [if_neg hk, dealt_append_of_left]
    intro t ht
    rw [List.mem_singleton.1 ht]
    omega

end Slot

namespace Chain

def clauseLists (chain : Chain) : List (List Condition) :=
  chain.conditions :: chain.joins.map Join.conditions

theorem length_clauseLists (chain : Chain) :
    chain.clauseLists.length = chain.sources.length := by simp [clauseLists, sources]

theorem map_conditions_modify (joins : List Join) (i : Nat) (f : Join → Join)
    (g : List Condition → List Condition) (hfg : ∀ j, (f j).conditions = g j.conditions) :
    (joins.modify i f).map Join.conditions = (joins.map Join.conditions).modify i g := by
  apply List.ext_getElem?
  intro k
  simp only [List.getElem?_map, List.getElem?_modify]
  cases joins[k]? with
  | none => rfl
  | some j => by_cases hk : i = k <;> simp [hk, hfg]

def restrictOffset (chain : Chain) : Role → Nat
  | .leading => 0
  | .joined => chain.joins.length

theorem clauseLists_restrict (chain : Chain) (role : Role) (c : Condition) :
    (chain.restrict role c).clauseLists =
      chain.clauseLists.modify (chain.restrictOffset role) (· ++ [c]) := by
  rcases chain.restrict_cases role c with ⟨rfl, hne, h⟩ | ⟨hcase, h⟩ <;> rw [h]
  · have hlast : chain.restrictOffset .joined = chain.joins.length - 1 + 1 := by
      have := List.length_pos_iff.2 hne
      simp only [restrictOffset]
      omega
    rw [hlast]
    simp only [clauseLists, List.modify_succ_cons]
    rw [map_conditions_modify _ _ _ (· ++ [c]) fun _ => rfl]
  · have hzero : chain.restrictOffset role = 0 := by
      rcases hcase with rfl | hnil
      · rfl
      · cases role <;> simp [restrictOffset, hnil]
    rw [hzero]
    rfl

theorem clauseLists_follow (first : Chain) (kind : JoinKind) (second : Chain) (i : Nat)
    (c : Condition) : (first.follow kind second i c).clauseLists = first.clauseLists ++
      second.clauseLists.modify i fun cs => if i = 0 then c :: cs else cs ++ [c] := by
  have hopened : (second.opened kind).map Join.conditions = second.clauseLists := rfl
  have hreceive : ∀ j, (Join.receive i c j).conditions =
      if i = 0 then c :: j.conditions else j.conditions ++ [c] := by
    intro j
    unfold Join.receive
    split <;> rfl
  rw [← hopened, ← map_conditions_modify _ _ _ _ hreceive]
  simp [clauseLists, follow]

/-- The names that the condition of a join may use in a clause: what has come into scope before the
first clause of its right operand, and the sources of the operand up to the clause. -/
def visibleAt (chain : Chain) (before : List String) (first k : Nat) : List String :=
  (before ++ chain.entered).take first ++
    ((chain.sources.take (k + 1 - before.length)).drop (first - before.length)).map Source.name

/-- A join condition stands in the first clause of its right operand where it is in scope. -/
structure Settled (chain : Chain) (before : List String) (s : Slot) : Prop where
  within : s.condition.within (chain.visibleAt before s.site.first s.clause) = true
  first : ∀ k, s.site.first ≤ k → k < s.clause →
    s.condition.within (chain.visibleAt before s.site.first k) = false

theorem visibleAt_restrict (chain : Chain) (role : Role) (c : Condition) :
    (chain.restrict role c).visibleAt = chain.visibleAt := by
  unfold visibleAt
  rw [sources_restrict, entered_restrict]

section Follow

variable {first : Chain} {before : List String} (hlen : first.entered.length = first.sources.length)
  (kind : JoinKind) (second : Chain) (i : Nat) (c : Condition)

include hlen

theorem visibleAt_follow_left {m k : Nat} (hm : m ≤ before.length + first.sources.length)
    (hk : k < before.length + first.sources.length) :
    (first.follow kind second i c).visibleAt before m k = first.visibleAt before m k := by
  have hscope : (before ++ (first.follow kind second i c).entered).take m =
      (before ++ first.entered).take m := by
    change (before ++ (first.entered ++ second.entered)).take m = _
    rw [← List.append_assoc]
    exact List.take_append_of_le_length (by rw [List.length_append]; omega)
  have hsources : (first.sources ++ second.sources).take (k + 1 - before.length) =
      first.sources.take (k + 1 - before.length) := List.take_append_of_le_length (by omega)
  unfold visibleAt
  rw [hscope, sources_follow, hsources]

theorem visibleAt_follow_right {m k : Nat} (hm : before.length + first.sources.length ≤ m)
    (hk : m ≤ k) : (first.follow kind second i c).visibleAt before m k =
      second.visibleAt (before ++ first.entered) m k := by
  have hscope : before ++ (first.follow kind second i c).entered =
      before ++ first.entered ++ second.entered := (List.append_assoc ..).symm
  have hsources : ((first.sources ++ second.sources).take (k + 1 - before.length)).drop
      (m - before.length) = (second.sources.take (k + 1 - (before ++ first.entered).length)).drop
        (m - (before ++ first.entered).length) := by
    rw [List.take_append, List.take_of_length_le (by omega), List.drop_append,
      List.drop_eq_nil_of_le (by omega), List.nil_append, List.length_append, hlen,
      Nat.sub_add_eq, Nat.sub_add_eq]
  unfold visibleAt
  rw [hscope, sources_follow, hsources]

end Follow

theorem visibleAt_first (chain : Chain) (before : List String) (kind : JoinKind) (k : Nat) :
    chain.visibleAt before before.length (before.length + k) =
      before ++ ((chain.opened kind).take (k + 1)).map (·.source.name) := by
  have hsources : ((chain.opened kind).take (k + 1)).map (·.source.name) =
      (chain.sources.take (k + 1)).map Source.name := by
    rw [← map_source_opened chain kind, ← List.map_take, List.map_map]
    rfl
  have hk : before.length + k + 1 - before.length = k + 1 := by omega
  unfold visibleAt
  rw [hsources, List.take_left, Nat.sub_self, List.drop_zero, hk]

theorem forall_mem_slots {P : Slot → Prop} {l l₁ : List Slot} {s : Slot} (h : ∀ t ∈ l, P t)
    (h₁ : ∀ t ∈ l₁, P t) (hs : P s) : ∀ t ∈ l ++ (l₁ ++ [s]), P t :=
  List.forall_mem_append.2 ⟨h, List.forall_mem_append.2 ⟨h₁, List.forall_mem_singleton.2 hs⟩⟩

theorem nested_concat {l : List Slot} {s : Slot}
    (h : l.Pairwise fun s t => s.clause = t.clause → s.site.node ∈ t.site.node.beneath)
    (hs : ∀ t ∈ l, t.site.node ∈ s.site.node.beneath) :
    (l ++ [s]).Pairwise fun s t => s.clause = t.clause → s.site.node ∈ t.site.node.beneath := by
  refine List.pairwise_append.2 ⟨h, List.pairwise_singleton _ _, fun t ht u hu _ => ?_⟩
  rw [List.mem_singleton.1 hu]
  exact hs t ht

structure Routes (names : Naming) (r : Relation) (view : View) (role : Role) (before : List String)
    (chain : Chain) (slots : List Slot) : Prop where
  sites : slots.map Slot.site = r.sites role before.length
  compiled : ∀ s ∈ slots, CompiledAt names view s.site.toPlaced s.condition
  range : ∀ s ∈ slots, s.site.first ≤ s.clause ∧ s.clause ≤ s.site.last
  bounds : ∀ s ∈ slots, before.length ≤ s.clause ∧ s.clause < before.length + chain.sources.length
  later : ∀ s ∈ slots, s.site.node.isJoin = true → before.length < s.site.first
  nested : slots.Pairwise fun s t => s.clause = t.clause → s.site.node ∈ t.site.node.beneath
  account : Slot.Account slots before.length chain.clauseLists
  settled : ∀ s ∈ slots, s.site.node.isJoin = true → chain.Settled before s

theorem Settled.restrict {chain : Chain} {before : List String} {s : Slot}
    (h : chain.Settled before s) (role : Role) (c : Condition) :
    (chain.restrict role c).Settled before s :=
  ⟨visibleAt_restrict chain role c ▸ h.within, visibleAt_restrict chain role c ▸ h.first⟩

section Follow

variable {first second : Chain} {before : List String} {kind : JoinKind} {i : Nat} {c : Condition}
  {s : Slot} (hlen : first.entered.length = first.sources.length)

include hlen

theorem Settled.follow_left (h : first.Settled before s) (hs : s.site.first ≤ s.clause)
    (hlt : s.clause < before.length + first.sources.length) (kind : JoinKind) (second : Chain)
    (i : Nat) (c : Condition) : (first.follow kind second i c).Settled before s := by
  refine ⟨?_, fun k hk hkc => ?_⟩
  · rw [visibleAt_follow_left hlen _ _ _ _ (by omega) hlt]
    exact h.within
  · rw [visibleAt_follow_left hlen _ _ _ _ (by omega) (by omega)]
    exact h.first k hk hkc

theorem Settled.follow_right (h : second.Settled (before ++ first.entered) s)
    (hs : s.site.first ≤ s.clause) (hle : before.length + first.sources.length ≤ s.site.first)
    (kind : JoinKind) (i : Nat) (c : Condition) :
    (first.follow kind second i c).Settled before s := by
  refine ⟨?_, fun k hk hkc => ?_⟩
  · rw [visibleAt_follow_right hlen _ _ _ _ hle hs]
    exact h.within
  · rw [visibleAt_follow_right hlen _ _ _ _ hle hk]
    exact h.first k hk hkc

theorem settled_of_settles
    (settles : Join.Settles c (before ++ first.entered) (second.opened kind) i)
    (hc : s.condition = c) (hs : s.site.first = (before ++ first.entered).length)
    (hi : s.clause = s.site.first + i) : (first.follow kind second i c).Settled before s := by
  have hle : before.length + first.sources.length ≤ s.site.first :=
    Nat.le_of_eq (by rw [hs, List.length_append, hlen])
  have hvisible : ∀ k, (first.follow kind second i c).visibleAt before s.site.first
      (s.site.first + k) =
        before ++ first.entered ++ ((second.opened kind).take (k + 1)).map (·.source.name) := by
    intro k
    rw [visibleAt_follow_right hlen _ _ _ _ hle (Nat.le_add_right _ _), hs,
      visibleAt_first second _ kind]
  refine ⟨?_, fun k hk hkc => ?_⟩
  · rw [hi, hvisible, hc]
    exact settles.within
  · obtain ⟨m, rfl⟩ := Nat.exists_eq_add_of_le hk
    rw [hvisible, hc]
    exact settles.first m (by omega)

end Follow

section Steps

variable {names : Naming} {view : View} {role : Role} {before : List String} {chain : Chain}
  {slots : List Slot}

theorem Routes.node_mem {r : Relation} (h : Routes names r view role before chain slots) :
    ∀ s ∈ slots, s.site.node ∈ r.nodes := by
  intro s hs
  exact Relation.node_mem_of_sites (h.sites ▸ List.mem_map_of_mem hs)

theorem Routes.table (id : Identity) (name : String) (columns : List String) (source : Source)
    (entered : List String) :
    Routes names (.table id name columns) view role before ⟨source, [], [], entered⟩ [] := by
  refine ⟨rfl, by simp, by simp, by simp, by simp, .nil, fun k cs hk => ?_, by simp⟩
  cases k with
  | zero => simpa [clauseLists, Slot.dealt] using hk.symm
  | succ k => simp [clauseLists] at hk

theorem Routes.aliased {id : Identity} {inner : Relation}
    (h : Routes names inner (names.inside id view) role before chain slots)
    (single : chain.joins = []) (source : Source) :
    Routes names (.aliased id inner) view role before { chain with source }
      (slots.map (Slot.inAlias (.aliased id inner))) := by
  have hlength : chain.sources.length = 1 := by simp [sources, single]
  constructor
  · simp only [Relation.sites, ← h.sites, List.map_map]
    rfl
  · refine List.forall_mem_map.2 fun s hs => ?_
    have hview := names.through_append s.site.around (.aliased id inner) view
    exact (congrArg (View.condition · s.site.predicate) hview).trans (h.compiled s hs)
  · exact List.forall_mem_map.2 h.range
  · have hsources : (Chain.sources { chain with source }).length = chain.sources.length := by
      simp [sources]
    rw [hsources]
    exact List.forall_mem_map.2 h.bounds
  · exact List.forall_mem_map.2 h.later
  · exact List.pairwise_map.2 h.nested
  · intro k cs hk
    rw [Slot.dealt_map_inAlias]
    exact h.account k cs hk
  · refine List.forall_mem_map.2 fun s hs hjoin => ?_
    -- one source leaves no clause to a join
    have hb := h.bounds s hs
    have hr := h.range s hs
    have hl := h.later s hs hjoin
    omega

theorem Routes.restrict {id : Identity} {inner : Relation} {p : Predicate} {c : Condition}
    (h : Routes names inner view role before chain slots)
    (first : role = .leading → before = [])
    (length : chain.sources.length = inner.occurrences.length)
    (compiled : view.condition p = .ok c) :
    Routes names (.selection id inner p) view role before (chain.restrict role c)
      (slots ++ [.ofSelection id inner p role before.length c]) := by
  have hl := length_sources chain
  have hclause : inner.selectionClause role before.length =
      before.length + chain.restrictOffset role := by
    cases role with
    | leading => simp [Relation.selectionClause, restrictOffset, first rfl]
    | joined =>
      simp only [Relation.selectionClause, restrictOffset]
      omega
  have hoffset : chain.restrictOffset role < chain.sources.length := by
    cases role <;> simp only [restrictOffset] <;> omega
  let s := Slot.ofSelection id inner p role before.length c
  have hselection : ¬ s.site.node.isJoin = true := Bool.false_ne_true
  constructor
  · simp [Relation.sites, h.sites, Slot.ofSelection]
  · exact List.forall_mem_append.2 ⟨h.compiled, List.forall_mem_singleton.2 compiled⟩
  · exact List.forall_mem_append.2
      ⟨h.range, List.forall_mem_singleton.2 ⟨Nat.le_refl _, Nat.le_refl _⟩⟩
  · rw [sources_restrict]
    refine List.forall_mem_append.2 ⟨h.bounds, List.forall_mem_singleton.2 ?_⟩
    change _ ≤ inner.selectionClause role before.length ∧
      inner.selectionClause role before.length < _
    omega
  · exact List.forall_mem_append.2
      ⟨h.later, List.forall_mem_singleton.2 fun hjoin => absurd hjoin hselection⟩
  · exact nested_concat h.nested h.node_mem
  · rw [clauseLists_restrict]
    exact h.account.modify hclause (Slot.dealt_concat slots rfl).symm
  · exact List.forall_mem_append.2 ⟨fun t ht hjoin => (h.settled t ht hjoin).restrict role c,
      List.forall_mem_singleton.2 fun hjoin => absurd hjoin hselection⟩

section Follow

variable {id : Identity} {kind : JoinKind} {left right : Relation} {p : Predicate} {c : Condition}
  {i : Nat} {second : Chain} {slots₁ : List Slot}
  (h : Routes names left view role before chain slots)
  (h₁ : Routes names right view .joined (before ++ chain.entered) second slots₁)
  (entered : chain.entered.length = chain.sources.length)
  (lengthLeft : chain.sources.length = left.occurrences.length)
  (lengthRight : second.sources.length = right.occurrences.length)

include h in
theorem Routes.below : ∀ s ∈ slots, s.clause < before.length + chain.sources.length :=
  fun s hs => (h.bounds s hs).2

include h₁ entered

theorem Routes.above : ∀ s ∈ slots₁, before.length + chain.sources.length ≤ s.clause := by
  intro s hs
  have hb := (h₁.bounds s hs).1
  rwa [List.length_append, entered] at hb

theorem Routes.later_joined : ∀ s ∈ slots₁, s.site.node.isJoin = true →
    before.length + chain.sources.length < s.site.first := by
  intro s hs hjoin
  have hl := h₁.later s hs hjoin
  rwa [List.length_append, entered] at hl

include h lengthLeft

theorem Routes.nested_follow : List.Pairwise
    (fun s t : Slot => s.clause = t.clause → s.site.node ∈ t.site.node.beneath)
    (slots ++ (slots₁ ++ [.ofJoin id kind left right p before.length i c])) := by
  rw [← List.append_assoc]
  refine nested_concat (List.pairwise_append.2 ⟨h.nested, h₁.nested, fun s hs t ht heq => ?_⟩)
    (List.forall_mem_append.2 ⟨fun s hs => List.mem_append_left _ (h.node_mem s hs),
      fun s hs => List.mem_append_right _ (h₁.node_mem s hs)⟩)
  have hlt := h.below s hs
  have hge := h₁.above entered t ht
  omega

theorem Routes.later_follow : ∀ s ∈ slots ++ (slots₁ ++
      [.ofJoin id kind left right p before.length i c]),
    s.site.node.isJoin = true → before.length < s.site.first := by
  refine forall_mem_slots h.later (fun s hs hjoin => ?_) fun _ => ?_
  · have hl := h₁.later_joined entered s hs hjoin
    omega
  · exact Nat.lt_add_of_pos_right left.length_occurrences_pos

theorem Routes.account_follow : Slot.Account
    (slots ++ (slots₁ ++ [.ofJoin id kind left right p before.length i c])) before.length
    (chain.follow kind second i c).clauseLists := by
  let s := Slot.ofJoin id kind left right p before.length i c
  have hlength : before.length + chain.clauseLists.length = s.site.first := by
    rw [length_clauseLists, lengthLeft]
    rfl
  have hfirst : (before ++ chain.entered).length = s.site.first := by
    rw [← hlength, length_clauseLists, List.length_append, entered]
  have hlater : ∀ t ∈ slots₁, t.site.node.isJoin = true → s.site.first < t.site.first := by
    rw [← hlength, length_clauseLists]
    exact h₁.later_joined entered
  have hclause : s.clause = (before ++ chain.entered).length + i := by
    rw [hfirst]
    rfl
  rw [clauseLists_follow]
  refine h.account.append ?_ ?_ ?_
  · rw [hlength, ← hfirst]
    exact h₁.account.modify hclause (Slot.dealt_concat_join rfl rfl hlater).symm
  · rw [length_clauseLists]
    exact h.below
  · rw [length_clauseLists]
    refine List.forall_mem_append.2 ⟨h₁.above entered, List.forall_mem_singleton.2 ?_⟩
    rw [lengthLeft]
    exact Nat.le_add_right _ i

include lengthRight

theorem Routes.bounds_follow (hi : i < right.occurrences.length) : ∀ s ∈ slots ++ (slots₁ ++
      [.ofJoin id kind left right p before.length i c]), before.length ≤ s.clause ∧
    s.clause < before.length + (chain.follow kind second i c).sources.length := by
  rw [sources_follow, List.length_append]
  refine forall_mem_slots (fun s hs => ?_) (fun s hs => ?_) ?_
  · have hb := h.bounds s hs
    omega
  · have hb := h₁.bounds s hs
    rw [List.length_append, entered] at hb
    omega
  · change before.length ≤ before.length + left.occurrences.length + i ∧
      before.length + left.occurrences.length + i < _
    omega

theorem Routes.follow (compiled : view.condition p = .ok c)
    (settles : Join.Settles c (before ++ chain.entered) (second.opened kind) i) :
    Routes names (.join id kind left right p) view role before (chain.follow kind second i c)
      (slots ++ (slots₁ ++ [.ofJoin id kind left right p before.length i c])) := by
  have hfirst : (before ++ chain.entered).length = before.length + left.occurrences.length := by
    rw [List.length_append, entered, lengthLeft]
  have hi : i < right.occurrences.length := by
    rw [← lengthRight]
    simpa [opened, sources] using settles.lt
  constructor
  · simp [Relation.sites, h.sites, h₁.sites, hfirst, Slot.ofJoin]
  · exact forall_mem_slots h.compiled h₁.compiled compiled
  · refine forall_mem_slots h.range h₁.range ⟨Nat.le_add_right _ i, ?_⟩
    simp only [Slot.ofJoin]
    omega
  · exact h.bounds_follow h₁ entered lengthLeft lengthRight hi
  · exact h.later_follow h₁ entered lengthLeft
  · exact h.nested_follow h₁ entered lengthLeft
  · exact h.account_follow h₁ entered lengthLeft
  · refine forall_mem_slots (fun s hs hjoin => ?_) (fun s hs hjoin => ?_) fun _ => ?_
    · exact (h.settled s hs hjoin).follow_left entered (h.range s hs).1 (h.below s hs) _ _ _ _
    · exact (h₁.settled s hs hjoin).follow_right entered (h₁.range s hs).1
        (Nat.le_of_lt (h₁.later_joined entered s hs hjoin)) _ _ _
    · exact settled_of_settles entered settles rfl hfirst.symm rfl

end Follow

end Steps

theorem Flattens.routes {names : Naming} {r : Relation} {view : View} {role : Role}
    {before : List String} {chain : Chain} (h : Flattens names r view role before chain)
    (first : role = .leading → before = []) :
    ∃ slots, Routes names r view role before chain slots := by
  induction h with
  | table => exact ⟨[], .table _ _ _ _ _⟩
  | aliased _ _ single ih =>
    obtain ⟨slots, hs⟩ := ih first
    exact ⟨_, hs.aliased single _⟩
  | selection flat compiled _ ih =>
    obtain ⟨slots, hs⟩ := ih first
    exact ⟨_, hs.restrict first flat.sources.length_eq.symm compiled⟩
  | join flatLeft flatRight _ compiled settles ihl ihr =>
    obtain ⟨slots, hs⟩ := ihl first
    obtain ⟨slots₁, hs₁⟩ := ihr fun hrole => nomatch hrole
    exact ⟨_, hs.follow hs₁ flatLeft.scoped.length_entered flatLeft.sources.length_eq.symm
      flatRight.sources.length_eq.symm compiled settles⟩

theorem Flattens.leading {names : Naming} {r : Relation} {view : View} {role : Role}
    {before : List String} {chain : Chain} (h : Flattens names r view role before chain)
    (hrole : role = .leading) :
    List.Forall₂ (Expr.Rel Column.Stands) r.leading chain.conditions := by
  induction h with
  | table => exact .nil
  | aliased _ _ _ ih => exact ih hrole
  | @selection _ _ _ _ _ _ chain c _ compiled _ ih =>
    subst hrole
    exact List.rel_append (ih rfl) (.cons (Column.stands_of_condition compiled) .nil)
  | join _ _ _ _ _ ihl _ => exact ihl hrole

end Chain

namespace Query

def clauseLists (q : Query) : List (List Condition) := q.filter :: q.joins.map Join.conditions

/-- Slots that route the predicates of a tree into the clauses of its statement. -/
structure Routed (root : Relation) (q : Query) (slots : List Slot) : Prop where
  sites : slots.map Slot.site = root.sites .leading 0
  conditions : ∀ s ∈ slots, s.site.predicate.Rel Column.Stands s.condition
  complete : (slots.map Slot.condition).Perm q.conjuncts
  range : ∀ s ∈ slots, s.site.first ≤ s.clause ∧ s.clause ≤ s.site.last
  bounds : ∀ s ∈ slots, s.clause < q.clauseLists.length
  nested : slots.Pairwise fun s t => s.clause = t.clause → s.site.node ∈ t.site.node.beneath
  dealt : q.clauseLists = (List.range q.clauseLists.length).map (Slot.dealt slots)
  leading : List.Forall₂ (Expr.Rel Column.Stands) root.leading q.filter

variable {root : Relation} {q : Query} {names : Naming} {chain : Chain} {slots : List Slot}

theorem Compiled.clauseLists_eq (h : Compiled root q names chain) :
    q.clauseLists = chain.clauseLists := by
  unfold clauseLists Chain.clauseLists
  rw [h.filter_eq, h.joins_eq]

theorem Compiled.complete (h : Compiled root q names chain)
    (routes : chain.Routes names root names.outside .leading [] slots) :
    (slots.map Slot.condition).Perm q.conjuncts := by
  obtain ⟨cs, hcs, hperm⟩ := h.conjuncts
  have hplaced : slots.map (·.site.toPlaced) = root.placed := by
    rw [← Relation.map_toPlaced_sites root .leading 0, ← List.length_nil, ← routes.sites,
      List.map_map]
    rfl
  rw [← hplaced, List.forall₂_map_left_iff] at hcs
  have hslots := (List.forall₂_and_left _ _).2 ⟨fun s hs => hs, hcs⟩
  have heq := map_eq_map_of_forall₂ (f := Slot.condition) (g := id)
    (fun s c ⟨hs, hc⟩ => Except.ok.inj ((routes.compiled s hs).symm.trans hc)) hslots
  rw [heq, List.map_id]
  exact hperm.symm

theorem Compiled.routed (h : Compiled root q names chain)
    (routes : chain.Routes names root names.outside .leading [] slots) : Routed root q slots := by
  have hlength : q.clauseLists.length = chain.sources.length := by
    rw [h.clauseLists_eq, Chain.length_clauseLists]
  refine ⟨routes.sites, fun s hs => Column.stands_of_condition (routes.compiled s hs),
    h.complete routes, routes.range, fun s hs => ?_, routes.nested, ?_,
    h.filter_eq ▸ h.flattens.leading rfl⟩
  · have := (routes.bounds s hs).2
    simpa [hlength] using this
  · refine List.ext_getElem (by simp) fun k hk _ => ?_
    have hget : chain.clauseLists[k]? = some q.clauseLists[k] := by
      rw [← h.clauseLists_eq]
      exact List.getElem?_eq_getElem hk
    have hdealt := routes.account k _ hget
    simpa using hdealt

/-- Every predicate of a tree is one conjunct of its statement, in the clause for its place. -/
theorem routed_of_compile (h : compile root = .ok q) : ∃ names slots,
    (Naming.assign root).outcome = .ok names ∧
      List.Forall₂ (Chain.SourceOf names.nameOf) root.occurrences q.sources ∧
      Routed root q slots := by
  obtain ⟨names, chain, h⟩ := compiled_of_ok h
  obtain ⟨slots, routes⟩ := h.flattens.routes fun _ => rfl
  refine ⟨names, slots, h.assigned, h.sources_listed.imp ?_, h.routed routes⟩
  rintro o s ⟨base, hb, hn, hs⟩
  exact ⟨base, s.name, hb, hn, hs⟩

/-- Posts and comments of a user and of an editor: a condition in WHERE, one that waits for the
alias, one inside the alias and one around the right operand. -/
def threads : Relation :=
  let users := Relation.table ⟨0⟩ "users" ["id", "kind"]
  let posts := Relation.table ⟨1⟩ "posts" ["author", "editor"]
  let editors := Relation.selection ⟨2⟩ users
    (.binary .eq (.ref ⟨⟨0⟩, "kind"⟩) (.literal (.integer 1)))
  let editor := Relation.aliased ⟨3⟩ editors
  let edited := Relation.join ⟨4⟩ .inner posts editor
    (.binary .eq (.ref ⟨⟨1⟩, "editor"⟩) (.ref ⟨⟨3⟩, "id"⟩))
  let others := Relation.selection ⟨5⟩ edited
    (.binary .ne (.ref ⟨⟨1⟩, "author"⟩) (.ref ⟨⟨1⟩, "editor"⟩))
  let owners := Relation.selection ⟨6⟩ users
    (.binary .eq (.ref ⟨⟨0⟩, "kind"⟩) (.literal (.integer 2)))
  .join ⟨7⟩ .inner owners others (.binary .lt (.ref ⟨⟨0⟩, "id"⟩) (.ref ⟨⟨3⟩, "id"⟩))

def threadsQuery : Query where
  columns := [⟨"users", "id"⟩, ⟨"users", "kind"⟩, ⟨"posts", "author"⟩, ⟨"posts", "editor"⟩,
    ⟨"users_2", "id"⟩, ⟨"users_2", "kind"⟩]
  source := ⟨"users", none⟩
  joins := [⟨.inner, ⟨"posts", none⟩, []⟩,
    ⟨.inner, ⟨"users", some "users_2"⟩,
      [.binary .eq (.ref ⟨"posts", "editor"⟩) (.ref ⟨"users_2", "id"⟩),
        .binary .eq (.ref ⟨"users_2", "kind"⟩) (.literal (.integer 1)),
        .binary .ne (.ref ⟨"posts", "author"⟩) (.ref ⟨"posts", "editor"⟩),
        .binary .lt (.ref ⟨"users", "id"⟩) (.ref ⟨"users_2", "id"⟩)]⟩]
  filter := [.binary .eq (.ref ⟨"users", "kind"⟩) (.literal (.integer 2))]

theorem routed_threads : compile threads = .ok threadsQuery ∧ ∃ names slots,
    (Naming.assign threads).outcome = .ok names ∧
      List.Forall₂ (Chain.SourceOf names.nameOf) threads.occurrences threadsQuery.sources ∧
      Routed threads threadsQuery slots := by
  have hq : compile threads = .ok threadsQuery := by rfl
  exact ⟨hq, routed_of_compile hq⟩

end Query

end RelationalSelect
