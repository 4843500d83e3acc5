import RelationalSelect.Proofs.Sources

/-!
The tables that a clause may name.

A source brings into scope its own name and the name that its table went by when it was met. The
two differ only for an occurrence that wraps an alias which is itself an occurrence: its table goes
by the name of that alias. The conditions of a clause name tables that its source or an earlier one
brought into scope.
-/

set_option autoImplicit false

namespace RelationalSelect

theorem exists_of_mem_modify {α : Type} {l : List α} {i k : Nat} {f : α → α} {a : α}
    (h : (l.modify i f)[k]? = some a) :
    l[k]? = some a ∨ (i = k ∧ ∃ b, l[k]? = some b ∧ a = f b) := by
  rw [List.getElem?_modify] at h
  by_cases hk : i = k
  · obtain ⟨b, hb, hf⟩ := Option.map_eq_some_iff.1 h
    exact .inr ⟨hk, b, hb, by simpa [hk] using hf.symm⟩
  · exact .inl (by simpa [hk] using h)

theorem exists_of_mem_take {α : Type} {l : List α} {n : Nat} {a : α} (h : a ∈ l.take n) :
    ∃ k < n, l[k]? = some a := by
  obtain ⟨k, hk⟩ := List.getElem?_of_mem h
  rw [List.getElem?_take] at hk
  split at hk
  · next hlt => exact ⟨k, hlt, hk⟩
  · contradiction

theorem exists_of_mem_map_take {α β : Type} {f : α → β} {l : List α} {i : Nat} {b : β}
    (h : b ∈ (l.take (i + 1)).map f) : ∃ k ≤ i, (l[k]?).map f = some b := by
  obtain ⟨a, ha, rfl⟩ := List.mem_map.1 h
  obtain ⟨k, hk, hka⟩ := exists_of_mem_take ha
  exact ⟨k, by omega, by rw [hka]; rfl⟩

theorem mem_map_take_of {α β : Type} {f : α → β} {l : List α} {k n : Nat} {b : β} (hk : k < n)
    (h : (l[k]?).map f = some b) : b ∈ (l.take n).map f := by
  obtain ⟨a, ha, rfl⟩ := Option.map_eq_some_iff.1 h
  refine List.mem_map_of_mem (List.mem_of_getElem? (i := k) ?_)
  rw [List.getElem?_take_of_lt hk, ha]

theorem Condition.within_mono {c : Condition} {l m : List String} (h : c.within l = true)
    (hlm : l ⊆ m) : c.within m = true := by
  rw [within_iff] at h ⊢
  intro t ht
  exact hlm (h t ht)

namespace Chain

/-- The names in scope once the source at a position is joined: those before the chain, and those
that its sources up to there have brought. -/
def reach (chain : Chain) (before : List String) (k : Nat) : List String :=
  before ++ (chain.entered.take (k + 1) ++ (chain.sources.take (k + 1)).map Source.name)

structure Scoped (chain : Chain) (role : Role) (before : List String) : Prop where
  length_entered : chain.entered.length = chain.sources.length
  onFirst : role = .joined → ∀ c ∈ chain.conditions,
    c.within (before ++ chain.entered.take 1) = true
  onClause : ∀ (i : Nat) (j : Join), chain.joins[i]? = some j → ∀ c ∈ j.conditions,
    c.within (chain.reach before (i + 1)) = true

theorem length_sources (chain : Chain) : chain.sources.length = chain.joins.length + 1 := by
  simp [sources]

theorem reach_restrict (chain : Chain) (role : Role) (c : Condition) :
    (chain.restrict role c).reach = chain.reach := by
  unfold reach
  rw [sources_restrict, entered_restrict]

theorem entered_subset_reach (chain : Chain) (before : List String) (k : Nat) :
    before ++ chain.entered.take (k + 1) ⊆ chain.reach before k := by
  unfold reach
  rw [← List.append_assoc]
  exact List.subset_append_left _ _

theorem names_subset_reach (chain : Chain) (before : List String) (k : Nat) :
    before ++ (chain.sources.take (k + 1)).map Source.name ⊆ chain.reach before k := by
  apply List.append_subset.2
  constructor
  · exact List.subset_append_left _ _
  · apply List.Subset.trans _ (List.subset_append_right _ _)
    exact List.subset_append_right _ _

theorem Scoped.restrict {chain : Chain} {role : Role} {before : List String} {c : Condition}
    (hs : chain.Scoped role before)
    (within : role = .joined → c.within (before ++ chain.entered) = true) :
    (chain.restrict role c).Scoped role before := by
  have hlen := hs.length_entered
  rw [length_sources] at hlen
  have hall : chain.entered.take (chain.joins.length + 1) = chain.entered :=
    List.take_of_length_le (by omega)
  constructor
  · rw [entered_restrict, sources_restrict]
    exact hs.length_entered
  · intro hr d hd
    rw [entered_restrict]
    rcases chain.restrict_cases role c with ⟨-, -, h⟩ | ⟨hcase, h⟩ <;> rw [h] at hd
    · exact hs.onFirst hr d hd
    · cases List.mem_append.1 hd with
      | inl hd => exact hs.onFirst hr d hd
      | inr hd =>
        cases hcase with
        | inl hc =>
          rw [hc] at hr
          contradiction
        | inr hc =>
          -- without joins the first source is all that has entered
          rw [List.mem_singleton.1 hd]
          rw [hc] at hall
          exact hall.symm ▸ within hr
  · intro i j hj d hd
    rw [reach_restrict]
    rcases chain.restrict_cases role c with ⟨hr, -, h⟩ | ⟨-, h⟩ <;> rw [h] at hj
    · rcases exists_of_mem_modify hj with hj | ⟨hi, j₁, hj₁, rfl⟩
      · exact hs.onClause i j hj d hd
      · cases List.mem_append.1 hd with
        | inl hd => exact hs.onClause i j₁ hj₁ d hd
        | inr hd =>
          have hlt := (List.getElem?_eq_some_iff.1 hj₁).1
          have hi : i + 1 = chain.joins.length := by omega
          rw [List.mem_singleton.1 hd, hi]
          apply Condition.within_mono (within hr)
          have hsub := chain.entered_subset_reach before chain.joins.length
          rwa [hall] at hsub
    · exact hs.onClause i j hj d hd

theorem reach_follow (first : Chain) (before : List String) (k : Nat) (kind : JoinKind)
    (second : Chain) (i : Nat) (c : Condition) :
    first.reach before k ⊆ (first.follow kind second i c).reach before k := by
  have hentered : (first.follow kind second i c).entered = first.entered ++ second.entered := rfl
  unfold reach
  rw [sources_follow, hentered, List.take_append, List.take_append, List.map_append]
  intro t ht
  simp only [List.mem_append] at ht ⊢
  rcases ht with ht | ht | ht
  · exact .inl ht
  · exact .inr (.inl (.inl ht))
  · exact .inr (.inr (.inl ht))

theorem reach_behind {first : Chain} (hlen : first.entered.length = first.sources.length)
    (before : List String) (k : Nat) (kind : JoinKind) (second : Chain) (i : Nat) (c : Condition) :
    second.reach (before ++ first.entered) k ⊆
      (first.follow kind second i c).reach before (first.sources.length + k) := by
  have hentered : (first.follow kind second i c).entered = first.entered ++ second.entered := rfl
  have hall : first.entered.take (first.sources.length + k + 1) = first.entered :=
    List.take_of_length_le (by omega)
  have hrest : first.sources.length + k + 1 - first.sources.length = k + 1 := by omega
  unfold reach
  rw [sources_follow, hentered, List.take_append, List.take_append, List.map_append, hall, hlen,
    hrest]
  intro t ht
  simp only [List.mem_append] at ht ⊢
  rcases ht with (ht | ht) | ht | ht
  · exact .inl ht
  · exact .inr (.inl (.inl ht))
  · exact .inr (.inl (.inr ht))
  · exact .inr (.inr (.inr ht))

theorem map_source_opened (second : Chain) (kind : JoinKind) :
    (second.opened kind).map Join.source = second.sources := rfl

theorem Scoped.opened {second : Chain} {visible : List String} (hs : second.Scoped .joined visible)
    {kind : JoinKind} {k : Nat} {j : Join} (hj : (second.opened kind)[k]? = some j) :
    ∀ c ∈ j.conditions, c.within (second.reach visible k) = true := by
  intro c hc
  cases k with
  | zero =>
    cases hj
    exact Condition.within_mono (hs.onFirst rfl c hc) (second.entered_subset_reach visible 0)
  | succ k => exact hs.onClause k j hj c hc

theorem Scoped.settled {second : Chain} {visible : List String} (hs : second.Scoped .joined visible)
    {kind : JoinKind} {c : Condition} {i : Nat}
    (settles : Join.Settles c visible (second.opened kind) i) {k : Nat} {j : Join}
    (hj : ((second.opened kind).modify i (Join.receive i c))[k]? = some j) :
    ∀ d ∈ j.conditions, d.within (second.reach visible k) = true := by
  intro d hd
  rcases exists_of_mem_modify hj with hj | ⟨rfl, j₁, hj₁, rfl⟩
  · exact hs.opened hj d hd
  · cases List.mem_cons.1 ((Join.conditions_receive i c j₁).mem_iff.1 hd) with
    | inl hdc =>
      have hwithin := settles.within
      have hmap : ((second.opened kind).take (i + 1)).map (·.source.name) =
          (second.sources.take (i + 1)).map Source.name := by
        rw [← map_source_opened second kind, ← List.map_take, List.map_map]
        rfl
      rw [hmap] at hwithin
      rw [hdc]
      exact Condition.within_mono hwithin (second.names_subset_reach visible i)
    | inr hd => exact hs.opened hj₁ d hd

theorem Flattens.scoped {names : Naming} {r : Relation} {view : View} {role : Role}
    {before : List String} {chain : Chain} (h : Flattens names r view role before chain) :
    chain.Scoped role before := by
  induction h with
  | table => exact ⟨rfl, by simp, by simp⟩
  | aliased named flat single ih =>
    constructor
    · simpa [Chain.sources] using ih.length_entered
    · exact ih.onFirst
    · simp [single]
  | selection flat compiled within ih => exact ih.restrict within
  | @join id kind left right predicate view role before first second c i _ _ _ _ settles ihl ihr =>
    constructor
    · rw [sources_follow]
      simp [follow, ihl.length_entered, ihr.length_entered]
    · intro hr d hd
      apply Condition.within_mono (ihl.onFirst hr d hd)
      change _ ⊆ before ++ (first.entered ++ second.entered).take 1
      rw [List.take_append, ← List.append_assoc]
      exact List.subset_append_left _ _
    · intro m j hj d hd
      have hlen := length_sources first
      cases Nat.lt_or_ge m first.joins.length with
      | inl hm =>
        have hj₁ : first.joins[m]? = some j := (List.getElem?_append_left hm).symm.trans hj
        exact Condition.within_mono (ihl.onClause m j hj₁ d hd) (first.reach_follow _ _ _ _ _ _)
      | inr hm =>
        have hj₁ := (List.getElem?_append_right hm).symm.trans hj
        have hm₁ : m + 1 = first.sources.length + (m - first.joins.length) := by omega
        rw [hm₁]
        exact Condition.within_mono (ihr.settled settles hj₁ d hd)
          (reach_behind ihl.length_entered _ _ _ _ _ _)

end Chain

namespace Naming

/-- An occurrence goes by its name, and what it wraps may go by the names of aliases inside it. -/
def Answers (names : Naming) (o : Relation) (t : String) : Prop :=
  names.nameOf o.id = some t ∨ ∃ b ∈ o.wrapped, names.nameOf b.id = some t

end Naming

namespace Chain

theorem Flattens.entered_cases {names : Naming} {r : Relation} {view : View} {role : Role}
    {before : List String} {chain : Chain} (h : Flattens names r view role before chain) :
    ∀ t ∈ chain.entered, (∃ x ∈ r.ids, view x = some t) ∨
      ∃ b ∈ r.aliases, names.nameOf b.id = some t := by
  induction h with
  | @table id _ _ _ _ _ display named =>
    intro t ht
    rw [List.mem_singleton.1 ht]
    exact .inl ⟨id, List.mem_singleton_self _, named⟩
  | @aliased id inner view _ _ chain _ _ _ _ ih =>
    intro t ht
    rcases ih t ht with ⟨x, hx, hv⟩ | ⟨b, hb, hn⟩
    · have hv := (names.inside_eq (.aliased id inner) view x).symm.trans hv
      split at hv
      · exact .inr ⟨.aliased id inner, List.mem_cons_self, hv⟩
      · exact .inl ⟨x, List.mem_cons_of_mem _ hx, hv⟩
    · exact .inr ⟨b, List.mem_cons_of_mem _ hb, hn⟩
  | selection _ _ _ ih =>
    intro t ht
    rw [entered_restrict] at ht
    rcases ih t ht with ⟨x, hx, hv⟩ | hb
    · exact .inl ⟨x, List.mem_cons_of_mem _ hx, hv⟩
    · exact .inr hb
  | join _ _ _ _ _ ihl ihr =>
    intro t ht
    cases List.mem_append.1 ht with
    | inl ht =>
      rcases ihl t ht with ⟨x, hx, hv⟩ | ⟨b, hb, hn⟩
      · exact .inl ⟨x, by simp [Relation.ids, hx], hv⟩
      · exact .inr ⟨b, List.mem_append_left _ hb, hn⟩
    | inr ht =>
      rcases ihr t ht with ⟨x, hx, hv⟩ | ⟨b, hb, hn⟩
      · exact .inl ⟨x, by simp [Relation.ids, hx], hv⟩
      · exact .inr ⟨b, List.mem_append_right _ hb, hn⟩

theorem Flattens.entered {names : Naming} {rs : List Relation} (hn : names.Names rs)
    {r : Relation} {role : Role} {before : List String} {chain : Chain}
    (h : Flattens names r names.outside role before chain) (hr : ∀ o ∈ r.occurrences, o ∈ rs) :
    List.Forall₂ names.Answers r.occurrences chain.entered := by
  -- on the tree and not on the derivation: the names outside stay the same above all aliases
  induction r generalizing role before chain with
  | table id name columns =>
    cases h with
    | table named =>
      have ho := hr _ (List.mem_singleton_self _)
      exact .cons (.inl ((hn.outside_of_mem ho).symm.trans named)) .nil
  | aliased id inner =>
    cases h with
    | @aliased _ _ _ _ _ chain _ named flat single =>
      have ho := hr _ (List.mem_singleton_self _)
      have hlen := flat.scoped.length_entered
      rw [length_sources, single] at hlen
      obtain ⟨t, ht⟩ := List.length_eq_one_iff.1 hlen
      change List.Forall₂ _ _ chain.entered
      rw [ht]
      refine .cons ?_ .nil
      rcases flat.entered_cases t (by simp [ht]) with ⟨x, hx, hv⟩ | hb
      · have hs : names.shows x (.aliased id inner) = true :=
          hn.shows_iff.2 ⟨_, ho, rfl, List.mem_cons_of_mem _ hx⟩
        have hv := (names.inside_eq (.aliased id inner) _ x).symm.trans hv
        rw [hs] at hv
        exact .inl hv
      · exact .inr hb
  | selection id inner predicate ih =>
    cases h with
    | selection flat _ _ =>
      rw [entered_restrict]
      exact ih flat hr
  | join id kind left right predicate ihl ihr =>
    cases h with
    | join flatLeft flatRight _ _ _ =>
      exact List.rel_append (ihl flatLeft fun o ho => hr o (List.mem_append_left _ ho))
        (ihr flatRight fun o ho => hr o (List.mem_append_right _ ho))

end Chain

namespace Query

/-- Every ON clause names only sources up to its own. -/
def OnInScope (q : Query) : Prop :=
  ∀ i j, q.joins[i]? = some j → ∀ c ∈ j.conditions, ∀ t ∈ c.tables,
    t ∈ (q.sources.take (i + 2)).map Source.name

/-- Some ON clause names an alias that is joined later, but that also stands inside an occurrence
which has been joined by then. -/
def NamesWrapped (q : Query) (root : Relation) : Prop :=
  ∃ i j, q.joins[i]? = some j ∧ ∃ c ∈ j.conditions, ∃ t ∈ c.tables, ∃ k b, i + 1 < k ∧
    root.occurrences[k]? = some b ∧ q.sources[k]?.map Source.name = some t ∧
      ∃ a ∈ root.occurrences.take (i + 2), b.id ∈ a.wrapped.map Relation.id

variable {root : Relation} {q : Query} {names : Naming} {chain : Chain}

theorem Compiled.on_cases (h : Compiled root q names chain) {i : Nat} {j : Join}
    (hj : q.joins[i]? = some j) {c : Condition} (hc : c ∈ j.conditions) {t : String}
    (ht : t ∈ c.tables) : t ∈ (q.sources.take (i + 2)).map Source.name ∨
      ∃ a ∈ root.occurrences.take (i + 2), ∃ b ∈ a.wrapped, names.nameOf b.id = some t := by
  rw [h.joins_eq] at hj
  have hwithin := h.flattens.scoped.onClause i j hj c hc
  have hmem := (Condition.within_iff c _).1 hwithin t ht
  unfold Chain.reach at hmem
  rw [List.nil_append, ← h.sources_eq] at hmem
  cases List.mem_append.1 hmem with
  | inl he =>
    have hf := List.forall₂_take (i + 2) (h.flattens.entered h.listed fun _ ho => ho)
    obtain ⟨o, ho, hn | ⟨b, hb, hn⟩⟩ := exists_of_forall₂ hf he
    · obtain ⟨k, hlt, hk⟩ := exists_of_mem_take ho
      rw [h.name_at hk] at hn
      exact .inl (mem_map_take_of hlt hn)
    · exact .inr ⟨o, ho, b, hb, hn⟩
  | inr hs => exact .inl hs

theorem Compiled.not_namesWrapped (h : Compiled root q names chain) (scope : q.OnInScope) :
    ¬ q.NamesWrapped root := by
  rintro ⟨i, j, hj, c, hc, t, ht, k, b, hk, -, hn, -⟩
  obtain ⟨m, hm, hmt⟩ := exists_of_mem_map_take (scope i j hj c hc t ht)
  rw [← List.getElem?_map] at hn hmt
  obtain ⟨hlt, hget⟩ := List.getElem?_eq_some_iff.1 hn
  obtain ⟨hlt₁, hget₁⟩ := List.getElem?_eq_some_iff.1 hmt
  have heq := (h.names_nodup.getElem_inj_iff).1 (hget.trans hget₁.symm)
  omega

theorem not_namesWrapped_of_wrapsNoneLater (none : root.WrapsNoneLater) :
    ¬ q.NamesWrapped root := by
  rintro ⟨i, j, hj, c, hc, t, ht, k, b, hk, hb, hn, a, ha, hwrapped⟩
  obtain ⟨m, hlt, hm⟩ := exists_of_mem_take ha
  obtain ⟨hmlt, hma⟩ := List.getElem?_eq_some_iff.1 hm
  obtain ⟨hklt, hkb⟩ := List.getElem?_eq_some_iff.1 hb
  have hpair := List.pairwise_iff_getElem.1 none m k hmlt hklt (by omega)
  rw [hma, hkb] at hpair
  exact hpair hwrapped

theorem Compiled.onInScope_of_not (h : Compiled root q names chain)
    (hw : ¬ q.NamesWrapped root) : q.OnInScope := by
  intro i j hj c hc t ht
  rcases h.on_cases hj hc ht with hs | ⟨a, ha, b, hb, hn⟩
  · exact hs
  · obtain ⟨r, hr, hid⟩ := h.listed.mem_of_nameOf hn
    obtain ⟨k, hk⟩ := List.getElem?_of_mem hr
    rw [← hid, h.name_at hk] at hn
    cases Nat.lt_or_ge (i + 1) k with
    | inl hlt =>
      exact absurd ⟨i, j, hj, c, hc, t, ht, k, r, hlt, hk, hn, a, ha,
        hid ▸ List.mem_map_of_mem hb⟩ hw
    | inr hge => exact mem_map_take_of (by omega) hn

theorem Compiled.onInScope (h : Compiled root q names chain) (apart : root.AliasesApart) :
    q.OnInScope := by
  have none := Relation.wrapsNoneLater_of_apart apart
  exact h.onInScope_of_not (not_namesWrapped_of_wrapsNoneLater none)

/-- Every ON clause is in scope unless one names a wrapped alias that is joined later. That needs an
occurrence that also stands inside an earlier one. -/
theorem onInScope_iff (h : compile root = .ok q) : (root.WrapsNoneLater → q.OnInScope) ∧
    (q.OnInScope ↔ ¬ q.NamesWrapped root) := by
  obtain ⟨names, chain, h⟩ := compiled_of_ok h
  constructor
  · intro none
    exact h.onInScope_of_not (not_namesWrapped_of_wrapsNoneLater none)
  · exact ⟨h.not_namesWrapped, h.onInScope_of_not⟩

/-- The outer of two aliases is joined before the inner one, which is joined as well. -/
def laterAlias : Relation :=
  let own := Relation.selection ⟨2⟩ (.table ⟨1⟩ "users" ["id"])
    (.binary .eq (.ref ⟨⟨1⟩, "id"⟩) (.literal (.integer 1)))
  let inner := Relation.aliased ⟨3⟩ own
  let first := Relation.join ⟨5⟩ .inner (.table ⟨0⟩ "x" ["k"]) (.aliased ⟨4⟩ inner)
    (.literal (.boolean true))
  .join ⟨6⟩ .inner first inner (.literal (.boolean true))

def laterAliasQuery : Query where
  columns := [⟨"x", "k"⟩, ⟨"users", "id"⟩, ⟨"users_2", "id"⟩]
  source := ⟨"x", none⟩
  joins := [⟨.inner, ⟨"users", none⟩,
      [.literal (.boolean true), .binary .eq (.ref ⟨"users_2", "id"⟩) (.literal (.integer 1))]⟩,
    ⟨.inner, ⟨"users", some "users_2"⟩,
      [.literal (.boolean true), .binary .eq (.ref ⟨"users_2", "id"⟩) (.literal (.integer 1))]⟩]
  filter := []

def earlierAlias : Relation :=
  let own := Relation.selection ⟨2⟩ (.table ⟨1⟩ "users" ["id"])
    (.binary .eq (.ref ⟨⟨1⟩, "id"⟩) (.literal (.integer 1)))
  let inner := Relation.aliased ⟨3⟩ own
  let first := Relation.join ⟨5⟩ .inner (.table ⟨0⟩ "x" ["k"]) inner
    (.binary .eq (.ref ⟨⟨0⟩, "k"⟩) (.ref ⟨⟨3⟩, "id"⟩))
  .join ⟨6⟩ .inner first (.aliased ⟨4⟩ inner)
    (.binary .lt (.ref ⟨⟨3⟩, "id"⟩) (.ref ⟨⟨4⟩, "id"⟩))

def earlierAliasQuery : Query where
  columns := [⟨"x", "k"⟩, ⟨"users", "id"⟩, ⟨"users_2", "id"⟩]
  source := ⟨"x", none⟩
  joins := [⟨.inner, ⟨"users", none⟩,
      [.binary .eq (.ref ⟨"x", "k"⟩) (.ref ⟨"users", "id"⟩),
        .binary .eq (.ref ⟨"users", "id"⟩) (.literal (.integer 1))]⟩,
    ⟨.inner, ⟨"users", some "users_2"⟩,
      [.binary .lt (.ref ⟨"users", "id"⟩) (.ref ⟨"users_2", "id"⟩),
        .binary .eq (.ref ⟨"users", "id"⟩) (.literal (.integer 1))]⟩]
  filter := []

theorem onInScope_laterAlias : (compile laterAlias = .ok laterAliasQuery ∧
      (laterAlias.WrapsNoneLater → laterAliasQuery.OnInScope) ∧
      (laterAliasQuery.OnInScope ↔ ¬ laterAliasQuery.NamesWrapped laterAlias)) ∧
    compile earlierAlias = .ok earlierAliasQuery ∧ earlierAlias.WrapsNoneLater ∧
      earlierAliasQuery.OnInScope ∧ ¬ earlierAliasQuery.NamesWrapped earlierAlias := by
  have hq : compile laterAlias = .ok laterAliasQuery := by rfl
  have hq₁ : compile earlierAlias = .ok earlierAliasQuery := by rfl
  have hnone : earlierAlias.WrapsNoneLater := by
    unfold Relation.WrapsNoneLater
    decide
  obtain ⟨hscope, hiff⟩ := onInScope_iff hq₁
  exact ⟨⟨hq, onInScope_iff hq⟩, hq₁, hnone, hscope hnone, hiff.1 (hscope hnone)⟩

theorem not_onInScope_laterAlias : compile laterAlias = .ok laterAliasQuery ∧
    ¬ laterAliasQuery.OnInScope := by
  refine ⟨by rfl, fun h => ?_⟩
  have hscope := h 0 _ rfl _ (List.mem_cons_of_mem _ List.mem_cons_self) "users_2" (by decide)
  exact absurd hscope (by decide)

end Query

end RelationalSelect
