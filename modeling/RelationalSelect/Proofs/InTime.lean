import Mathlib.Data.Nat.Find
import RelationalSelect.Proofs.Meaning
import RelationalSelect.Proofs.Owners

set_option autoImplicit false

namespace RelationalSelect

theorem exists_mapM {α β ε : Type} {f : α → Except ε β} {l : List α}
    (h : ∀ a ∈ l, ∃ b, f a = .ok b) : ∃ m, l.mapM f = .ok m := by
  induction l with
  | nil => exact ⟨[], rfl⟩
  | cons a l ih =>
    obtain ⟨b, hb⟩ := h a List.mem_cons_self
    obtain ⟨m, hm⟩ := ih fun a ha => h a (List.mem_cons_of_mem _ ha)
    refine ⟨b :: m, ?_⟩
    rw [List.mapM_cons]
    exact bind_eq_ok_iff.2 ⟨b, hb, bind_eq_ok_iff.2 ⟨m, hm, rfl⟩⟩

theorem Expr.exists_mapM {α β ε : Type} {f : α → Except ε β} {p : Expr α}
    (h : ∀ a ∈ p.refs, ∃ b, f a = .ok b) : ∃ c, p.mapM f = .ok c := by
  induction p with
  | ref a =>
    obtain ⟨b, hb⟩ := h a (List.mem_singleton_self a)
    exact ⟨.ref b, bind_eq_ok_iff.2 ⟨b, hb, rfl⟩⟩
  | literal v => exact ⟨.literal v, rfl⟩
  | binary op l r ihl ihr =>
    obtain ⟨l₁, hl⟩ := ihl fun a ha => h a (List.mem_append_left _ ha)
    obtain ⟨r₁, hr⟩ := ihr fun a ha => h a (List.mem_append_right _ ha)
    exact ⟨.binary op l₁ r₁, bind_eq_ok_iff.2 ⟨l₁, hl, bind_eq_ok_iff.2 ⟨r₁, hr, rfl⟩⟩⟩

theorem View.exists_column {view : View} {x : Attribute} {t : String} (h : view x.owner = some t) :
    ∃ c, view.column x = .ok c := by
  unfold column
  rw [h]
  exact ⟨_, rfl⟩

namespace Relation

def CarriedUpTo (root : Relation) (p : Placed) (k : Nat) : Prop :=
  ∀ x ∈ p.predicate.refs, ∃ o ∈ root.occurrences.take (k + 1),
    root.carrierWithin p.around.getLast? x.owner = some o

/-- The attributes of a predicate are carried, and by its last clause if that is not WHERE. -/
def CarriesInTime (root : Relation) (s : Site) : Prop :=
  ∀ x ∈ s.predicate.refs, ∃ o, root.carrierWithin s.around.getLast? x.owner = some o ∧
    (0 < s.last → o ∈ root.occurrences.take (s.last + 1))

/-- Outside aliases no outer join has a join in its right operand. -/
def SimpleOuterJoins : Relation → Prop
  | .table _ _ _ | .aliased _ _ => True
  | .selection _ inner _ => inner.SimpleOuterJoins
  | .join _ kind left right _ => left.SimpleOuterJoins ∧ right.SimpleOuterJoins ∧
      (kind = .leftOuter → right.joinKinds = [])

/-- What a tree needs for a statement. A clause other than WHERE asks for the attributes of each
predicate of its own by the last position that the predicate may take: the last occurrence beneath
the selection, or in the right operand of the join. -/
structure Acceptable (root : Relation) : Prop where
  distinct : (root.occurrences.map id).Nodup
  single : ∀ o ∈ root.occurrences, o.joinKinds = []
  simple : root.SimpleOuterJoins
  known : ∀ p ∈ root.placed, ∀ x ∈ p.predicate.refs, x.owner ∈ root.ids
  inTime : ∀ s ∈ root.sites .leading 0, 0 < s.last → root.CarriedUpTo s.toPlaced s.last

instance (root : Relation) (p : Placed) (k : Nat) : Decidable (root.CarriedUpTo p k) :=
  inferInstanceAs (Decidable (∀ x ∈ p.predicate.refs, ∃ o ∈ root.occurrences.take (k + 1), _ = _))

instance decidableSimpleOuterJoins : (r : Relation) → Decidable r.SimpleOuterJoins
  | .table _ _ _ | .aliased _ _ => isTrue trivial
  | .selection _ inner _ => decidableSimpleOuterJoins inner
  | .join _ kind left right _ =>
      have := decidableSimpleOuterJoins left
      have := decidableSimpleOuterJoins right
      inferInstanceAs (Decidable (left.SimpleOuterJoins ∧ right.SimpleOuterJoins ∧
        (kind = .leftOuter → right.joinKinds = [])))

instance (root : Relation) : Decidable root.Acceptable :=
  decidable_of_iff ((root.occurrences.map id).Nodup ∧ (∀ o ∈ root.occurrences, o.joinKinds = []) ∧
      root.SimpleOuterJoins ∧ (∀ p ∈ root.placed, ∀ x ∈ p.predicate.refs, x.owner ∈ root.ids) ∧
      ∀ s ∈ root.sites .leading 0, 0 < s.last → root.CarriedUpTo s.toPlaced s.last)
    ⟨fun ⟨distinct, single, simple, known, inTime⟩ => ⟨distinct, single, simple, known, inTime⟩,
      fun h => ⟨h.distinct, h.single, h.simple, h.known, h.inTime⟩⟩

theorem baseName_ok_iff (r : Relation) : (∃ base, r.baseName = .ok base) ↔ r.joinKinds = [] := by
  induction r with
  | table => simp [baseName, joinKinds]
  | aliased _ _ ih | selection _ _ _ ih => simpa [baseName, joinKinds] using ih
  | join => simp [baseName, joinKinds]

theorem length_occurrences (r : Relation) : r.occurrences.length ≤ r.joinKinds.length + 1 := by
  induction r with
  | table | aliased => simp [occurrences]
  | selection _ _ _ ih => exact ih
  | join _ _ _ _ _ ihl ihr =>
    simp only [occurrences, joinKinds, List.length_append, List.length_cons]
    omega

theorem last_of_single {r : Relation} (single : r.joinKinds = []) {n : Nat} {s : Site}
    (h : s ∈ r.sites .joined n) : s.last = n := by
  induction r generalizing s with
  | table => simp [sites] at h
  | aliased _ _ ih =>
    obtain ⟨s₁, hs, rfl⟩ := List.mem_map.1 h
    have hlast := ih single hs
    exact hlast
  | selection _ inner _ ih =>
    cases List.mem_append.1 h with
    | inl h => exact ih single h
    | inr h =>
      have hle := inner.length_occurrences
      have hpos := inner.length_occurrences_pos
      have hnone : inner.joinKinds.length = 0 := List.length_eq_zero_iff.2 single
      rw [List.mem_singleton.1 h]
      change n + inner.occurrences.length - 1 = n
      omega
  | join => simp [joinKinds] at single

theorem outermost_mem {r : Relation} {p : Placed} (hp : p ∈ r.placed) (a : Relation)
    (ha : p.around.getLast? = some a) : a ∈ r.occurrences := by
  rcases around_cases hp with h | ⟨front, b, h, hb, -⟩
  · simp [h] at ha
  · obtain rfl : b = a := by simpa [h] using ha
    exact hb

theorem first_pos_of_last_pos {r : Relation} {role : Role} {n : Nat} {s : Site}
    (h : s ∈ r.sites role n) (hpos : 0 < s.last) : 0 < s.first := by
  induction r generalizing role n s with
  | table => simp [sites] at h
  | aliased _ _ ih =>
    obtain ⟨s₁, hs, rfl⟩ := List.mem_map.1 h
    have hfirst := ih hs hpos
    exact hfirst
  | selection _ _ _ ih =>
    cases List.mem_append.1 h with
    | inl h => exact ih h hpos
    | inr h =>
      rw [List.mem_singleton.1 h] at hpos ⊢
      exact hpos
  | join _ _ left right _ ihl ihr =>
    simp only [sites, List.mem_append, List.mem_singleton] at h
    rcases h with (h | h) | rfl
    · exact ihl h hpos
    · exact ihr h hpos
    · have := left.length_occurrences_pos
      simp only
      omega

end Relation

namespace Naming

def Calls (names : Naming) (o : Relation) (t : String) : Prop := names.nameOf o.id = some t

theorem exists_add {names : Naming} {r : Relation} (hfree : names.get? r.id = none)
    (single : r.joinKinds = []) : ∃ names₁, (names.add r).outcome = .ok names₁ := by
  obtain ⟨base, hb⟩ := r.baseName_ok_iff.2 single
  unfold add
  rw [Roster.contains_eq_isSome_get?, hfree]
  simp only [Option.isSome_none, Bool.false_eq_true, if_false, Logged.liftM_eq,
    Logged.outcome_bind, Logged.outcome_ofExcept]
  exact ⟨_, bind_eq_ok_iff.2 ⟨base, hb, rfl⟩⟩

theorem Names.exists_foldlM {names : Naming} {rs₀ rs : List Relation} (hn : names.Names rs₀)
    (distinct : ((rs₀ ++ rs).map Relation.id).Nodup) (single : ∀ r ∈ rs, r.joinKinds = []) :
    ∃ names₁, (rs.foldlM Naming.add names).outcome = .ok names₁ := by
  induction rs generalizing names rs₀ with
  | nil => exact ⟨names, rfl⟩
  | cons r rs ih =>
    have hfree : names.get? r.id = none := by
      refine Option.eq_none_iff_forall_ne_some.2 fun o ho => ?_
      obtain ⟨r₀, hr₀, he⟩ := hn.mem_of_get? ho
      rw [List.map_append, List.map_cons, List.nodup_append] at distinct
      exact distinct.2.2 _ (List.mem_map_of_mem hr₀) _ List.mem_cons_self he.id_eq.symm
    obtain ⟨names₁, ha⟩ := exists_add hfree (single r List.mem_cons_self)
    have distinct₁ : ((rs₀ ++ [r] ++ rs).map Relation.id).Nodup := by simpa using distinct
    obtain ⟨names₂, hf⟩ := ih (hn.add ha) distinct₁ fun s hs => single s (List.mem_cons_of_mem _ hs)
    refine ⟨names₂, ?_⟩
    simp only [List.foldlM_cons, Logged.outcome_bind]
    exact bind_eq_ok_iff.2 ⟨names₁, ha, hf⟩

theorem exists_assign {root : Relation} (distinct : (root.occurrences.map Relation.id).Nodup)
    (single : ∀ o ∈ root.occurrences, o.joinKinds = []) :
    ∃ names, (assign root).outcome = .ok names := by
  obtain ⟨names, h⟩ := names_empty.exists_foldlM distinct single
  unfold assign
  rw [Relation.forOccurrences_eq_foldlM]
  simp only [Logged.outcome_bind]
  exact ⟨names, bind_eq_ok_iff.2 ⟨names, h, rfl⟩⟩

variable {names : Naming} {root : Relation}

/-- A condition names only the sources of some occurrences if those carry its attributes. -/
theorem Names.within_iff (hn : names.Names root.occurrences) {outermost : Option Relation}
    (houter : ∀ a, outermost = some a → a ∈ root.occurrences) {view : View}
    (hview : ∀ x, view x = (root.carrierWithin outermost x).bind fun o => names.nameOf o.id)
    {p : Predicate} {c : Condition} (hc : view.condition p = .ok c) {os : List Relation}
    {ts : List String} (hos : os ⊆ root.occurrences) (hts : List.Forall₂ names.Calls os ts) :
    c.within ts = true ↔
      ∀ x ∈ p.refs, ∃ o ∈ os, root.carrierWithin outermost x.owner = some o := by
  have hrefs := (View.rel_of_condition hc).refs
  rw [Condition.within_iff]
  constructor
  · intro hwithin x hx
    obtain ⟨col, hcol, ht, -⟩ := exists_of_forall₂ hrefs.flip hx
    rw [hview] at ht
    obtain ⟨o, ho, hot⟩ := Option.bind_eq_some_iff.1 ht
    obtain ⟨o₁, ho₁, hot₁⟩ := exists_of_forall₂ hts (hwithin _ (List.mem_map_of_mem hcol))
    have hmem := (Relation.carrierWithin_mem houter ho).1
    obtain rfl := hn.eq_of_id_eq hmem (hos ho₁) (hn.nameOf_inj hot hot₁)
    exact ⟨o, ho₁, ho⟩
  · intro hcarried t ht
    obtain ⟨col, hcol, rfl⟩ := List.mem_map.1 ht
    obtain ⟨x, hx, ht, -⟩ := exists_of_forall₂ hrefs hcol
    obtain ⟨o, ho, hcarrier⟩ := hcarried x hx
    rw [hview, hcarrier] at ht
    obtain ⟨t, ht₁, hot⟩ := exists_of_forall₂ hts.flip ho
    have heq : some col.table = some t := ht.symm.trans hot
    exact Option.some.inj heq ▸ ht₁

theorem Names.exists_condition (hn : names.Names root.occurrences) {outermost : Option Relation}
    (houter : ∀ a, outermost = some a → a ∈ root.occurrences) {view : View}
    (hview : ∀ x, view x = (root.carrierWithin outermost x).bind fun o => names.nameOf o.id)
    {p : Predicate} (h : ∀ x ∈ p.refs, ∃ o, root.carrierWithin outermost x.owner = some o) :
    ∃ c, view.condition p = .ok c := by
  refine Expr.exists_mapM fun x hx => ?_
  obtain ⟨o, ho⟩ := h x hx
  obtain ⟨t, ht⟩ := hn.exists_nameOf (Relation.carrierWithin_mem houter ho).1
  refine View.exists_column (t := t) ?_
  rw [hview, ho]
  exact ht

theorem Names.exists_columns (hn : names.Names root.occurrences) :
    ∃ columns, root.attributes.mapM names.outside.column = .ok columns := by
  refine exists_mapM fun x hx => ?_
  obtain ⟨o, ho, hid⟩ := Relation.owner_of_mem_attributes hx
  obtain ⟨t, ht⟩ := hn.exists_nameOf ho
  exact View.exists_column (hid ▸ (hn.outside_of_mem ho).trans ht)

theorem Names.exists_condition_outside (hn : names.Names root.occurrences) {s : Site}
    (h : root.CarriesInTime s) (outside : s.around = []) :
    ∃ c, names.outside.condition s.predicate = .ok c ∧ (0 < s.last → ∀ ts,
      List.Forall₂ names.Calls (root.occurrences.take (s.last + 1)) ts → c.within ts = true) := by
  have houter : ∀ a, none = some a → a ∈ root.occurrences := fun _ h => nomatch h
  unfold Relation.CarriesInTime at h
  rw [outside] at h
  obtain ⟨c, hc⟩ := hn.exists_condition houter hn.outside_eq fun x hx => by
    obtain ⟨o, ho, -⟩ := h x hx
    exact ⟨o, ho⟩
  refine ⟨c, hc, fun hpos ts hts => ?_⟩
  refine (hn.within_iff houter hn.outside_eq hc (List.take_subset _ _) hts).2 fun x hx => ?_
  obtain ⟨o, ho, hmem⟩ := h x hx
  exact ⟨o, hmem hpos, ho⟩

end Naming

theorem Join.exists_settles {c : Condition} {visible : List String} {joins : List Join}
    (hne : joins ≠ []) (h : c.within (visible ++ joins.map (·.source.name)) = true) :
    ∃ i, Settles c visible joins i := by
  have hpos := List.length_pos_iff.2 hne
  have hex : ∃ i, i < joins.length ∧
      c.within (visible ++ (joins.take (i + 1)).map (·.source.name)) = true := by
    refine ⟨joins.length - 1, by omega, ?_⟩
    rw [List.take_of_length_le (by omega)]
    exact h
  obtain ⟨hlt, hwithin⟩ := Nat.find_spec hex
  refine ⟨Nat.find hex, hlt, hwithin, fun k hk => ?_⟩
  exact Bool.eq_false_iff.2 fun hw => Nat.find_min hex hk ⟨by omega, hw⟩

namespace Chain

section Inside

variable {names : Naming} {root a : Relation} (hn : names.Names root.occurrences)
  (apart : root.AliasesApart) (ha : a ∈ root.occurrences) {t : String}
  (ht : names.nameOf a.id = some t) {os : List Relation} {before : List String}
  (hos : os ⊆ root.occurrences) (hbefore : List.Forall₂ names.Calls os before) {role : Role}

include hn apart ha ht hos hbefore

theorem exists_flattens_inside {r : Relation} (front : List Relation)
    (hwrapped : ∀ b ∈ front ++ r.aliases, b ∈ a.wrapped) (hids : r.ids ⊆ a.ids)
    (single : r.joinKinds = [])
    (hrefs : ∀ p ∈ r.placed, ∀ x ∈ p.predicate.refs, ∃ o,
      root.carrierWithin (some a) x.owner = some o ∧ (role = .joined → o ∈ os ++ [a])) :
    ∃ chain, Flattens names r (names.through (front ++ [a]) names.outside) role before chain ∧
      chain.entered = [t] := by
  have hview : ∀ front : List Relation, (∀ b ∈ front, b ∈ a.wrapped) →
      ∀ x, names.through (front ++ [a]) names.outside x =
        (root.carrierWithin (some a) x).bind fun o => names.nameOf o.id :=
    fun _ => hn.through_wrapped apart ha
  have named : ∀ front : List Relation, (∀ b ∈ front, b ∈ a.wrapped) →
      ∀ x ∈ a.ids, names.through (front ++ [a]) names.outside x = some t := by
    intro front hfront x hx
    rw [hview front hfront, Relation.carrierWithin, if_pos ((Relation.contains_iff x a).2 hx)]
    exact ht
  induction r generalizing front with
  | table id name columns =>
    exact ⟨_, .table (named front (fun b hb => hwrapped b (List.mem_append_left _ hb)) id
      (hids (List.mem_singleton_self id))), rfl⟩
  | aliased id inner ih =>
    have hwrapped₁ : ∀ b ∈ (.aliased id inner :: front) ++ inner.aliases, b ∈ a.wrapped := by
      intro b hb
      refine hwrapped b ?_
      simp only [List.cons_append, List.mem_cons, List.mem_append] at hb
      simp only [Relation.aliases, List.mem_append, List.mem_cons]
      tauto
    obtain ⟨chain, hflat, hentered⟩ := ih _ hwrapped₁
      (fun x hx => hids (List.mem_cons_of_mem _ hx)) single
      fun p hp => hrefs ⟨p.around ++ [.aliased id inner], p.predicate⟩ (List.mem_map_of_mem hp)
    have hjoins : chain.joins = [] := List.map_eq_nil_iff.1 (hflat.kinds.trans single)
    exact ⟨_, .aliased (named front (fun b hb => hwrapped b (List.mem_append_left _ hb)) id
      (hids List.mem_cons_self)) hflat hjoins, hentered⟩
  | selection id inner predicate ih =>
    obtain ⟨chain, hflat, hentered⟩ := ih front hwrapped
      (fun x hx => hids (List.mem_cons_of_mem _ hx)) single
      fun p hp => hrefs p (List.mem_append_left _ hp)
    have hview₁ := hview front fun b hb => hwrapped b (List.mem_append_left _ hb)
    have hown := hrefs ⟨[], predicate⟩ (List.mem_append_right _ (List.mem_singleton_self _))
    have houter : ∀ b, some a = some b → b ∈ root.occurrences := by
      rintro b ⟨⟩
      exact ha
    obtain ⟨c, hc⟩ := hn.exists_condition houter hview₁ fun x hx => by
      obtain ⟨o, ho, -⟩ := hown x hx
      exact ⟨o, ho⟩
    refine ⟨_, .selection hflat hc fun hrole => ?_, by rw [entered_restrict, hentered]⟩
    rw [hentered]
    refine (hn.within_iff houter hview₁ hc (List.append_subset.2 ⟨hos, by simpa using ha⟩)
      (List.rel_append hbefore (.cons ht .nil))).2 fun x hx => ?_
    obtain ⟨o, ho, hmem⟩ := hown x hx
    exact ⟨o, hmem hrole, ho⟩
  | join => simp [Relation.joinKinds] at single

end Inside

section Outside

variable {names : Naming} {root : Relation} (hn : names.Names root.occurrences)
  (apart : root.AliasesApart)

theorem Flattens.calls {r : Relation} {role : Role} {before : List String} {chain : Chain}
    (hn : names.Names root.occurrences) (h : Flattens names r names.outside role before chain)
    (hr : r.occurrences ⊆ root.occurrences) :
    List.Forall₂ names.Calls r.occurrences (chain.sources.map Source.name) := by
  rw [List.forall₂_map_right_iff]
  have hmem := (List.forall₂_and_left _ _).2 ⟨fun _ ho => ho, h.sources⟩
  refine hmem.imp ?_
  rintro o s ⟨ho, base, name, -, hv, hs⟩
  rw [hs, Source.name_named]
  exact (hn.outside_of_mem (hr ho)).symm.trans hv

theorem Flattens.calls_opened {r : Relation} {role : Role} {before : List String} {chain : Chain}
    (hn : names.Names root.occurrences) (h : Flattens names r names.outside role before chain)
    (hr : r.occurrences ⊆ root.occurrences) (kind : JoinKind) :
    List.Forall₂ names.Calls r.occurrences ((chain.opened kind).map (·.source.name)) := by
  have hcalls := h.calls hn hr
  rwa [← chain.map_source_opened kind, List.map_map] at hcalls

theorem take_occurrences {front os back : List Relation}
    (hroot : root.occurrences = front ++ os ++ back) {n : Nat}
    (hn : n = front.length + os.length) : root.occurrences.take n = front ++ os := by
  rw [hroot, List.take_left' (by rw [List.length_append, hn])]

include hn apart

theorem exists_flattens_aliased {id : Identity} {inner : Relation} (single : inner.joinKinds = [])
    {role : Role} {front back : List Relation} {before : List String}
    (hroot : root.occurrences = front ++ [.aliased id inner] ++ back)
    (hbefore : List.Forall₂ names.Calls front before) (hrole : role = .joined → 0 < before.length)
    (intime : ∀ s ∈ (Relation.aliased id inner).sites role before.length, root.CarriesInTime s) :
    ∃ chain, Flattens names (.aliased id inner) names.outside role before chain ∧
      List.Forall₂ names.Calls [.aliased id inner] chain.entered := by
  have ha : Relation.aliased id inner ∈ root.occurrences := by simp [hroot]
  have hfront : front ⊆ root.occurrences := by
    rw [hroot, List.append_assoc]
    exact List.subset_append_left _ _
  obtain ⟨t, ht⟩ := hn.exists_nameOf ha
  have hinside : ∀ p ∈ inner.placed, ∀ x ∈ p.predicate.refs, ∃ o,
      root.carrierWithin (some (.aliased id inner)) x.owner = some o ∧
        (role = .joined → o ∈ front ++ [.aliased id inner]) := by
    intro p hp x hx
    rw [← inner.map_toPlaced_sites role before.length] at hp
    obtain ⟨s, hs, rfl⟩ := List.mem_map.1 hp
    obtain ⟨o, ho, hmem⟩ := intime _ (List.mem_map_of_mem hs) x hx
    refine ⟨o, by simpa using ho, fun hjoined => ?_⟩
    subst hjoined
    have hlast : s.last = before.length := Relation.last_of_single single hs
    have hlength := hbefore.length_eq
    rw [← take_occurrences hroot (n := s.last + 1) (by simp; omega)]
    exact hmem (hlast ▸ hrole rfl)
  obtain ⟨chain, hflat, hentered⟩ := exists_flattens_inside hn apart ha ht hfront hbefore
    [] (fun b hb => hb) (List.subset_cons_self _ _) single hinside
  have hjoins : chain.joins = [] := List.map_eq_nil_iff.1 (hflat.kinds.trans single)
  have hcalls : List.Forall₂ names.Calls [.aliased id inner] chain.entered := by
    rw [hentered]
    exact .cons ht .nil
  exact ⟨_, .aliased ((hn.outside_of_mem ha).trans ht) hflat hjoins, hcalls⟩

theorem exists_flattens (single : ∀ o ∈ root.occurrences, o.joinKinds = []) {r : Relation}
    (role : Role) {front : List Relation} (back : List Relation) {before : List String}
    (hroot : root.occurrences = front ++ r.occurrences ++ back)
    (hbefore : List.Forall₂ names.Calls front before) (hrole : role = .joined → 0 < before.length)
    (simple : r.SimpleOuterJoins)
    (intime : ∀ s ∈ r.sites role before.length, root.CarriesInTime s) :
    ∃ chain, Flattens names r names.outside role before chain ∧
      List.Forall₂ names.Calls r.occurrences chain.entered := by
  induction r generalizing role front back before with
  | table id name columns =>
    have ho : Relation.table id name columns ∈ root.occurrences := by
      simp [hroot, Relation.occurrences]
    obtain ⟨t, ht⟩ := hn.exists_nameOf ho
    exact ⟨_, .table ((hn.outside_of_mem ho).trans ht), .cons ht .nil⟩
  | aliased id inner =>
    have ha : Relation.aliased id inner ∈ root.occurrences := by simp [hroot, Relation.occurrences]
    have hinner : inner.joinKinds = [] := single (.aliased id inner) ha
    exact exists_flattens_aliased hn apart hinner hroot hbefore hrole intime
  | selection id inner predicate ih =>
    obtain ⟨chain, hflat, hentered⟩ := ih role back hroot hbefore hrole simple
      fun s hs => intime s (List.mem_append_left _ hs)
    obtain ⟨c, hc, hwithin⟩ := hn.exists_condition_outside
      (intime _ (List.mem_append_right _ (List.mem_singleton_self _))) rfl
    refine ⟨_, .selection hflat hc fun hjoined => ?_, by rw [entered_restrict]; exact hentered⟩
    subst hjoined
    have hpos := hrole rfl
    have hlen := inner.length_occurrences_pos
    have hlength := hbefore.length_eq
    simp only [Relation.selectionClause] at hwithin
    rw [take_occurrences hroot (by simp only [Relation.occurrences]; omega)] at hwithin
    exact hwithin (by omega) _ (List.rel_append hbefore hentered)
  | join id kind left right predicate ihl ihr =>
    simp only [Relation.occurrences, ← List.append_assoc] at hroot
    obtain ⟨first, hfirst, henteredLeft⟩ := ihl role (right.occurrences ++ back)
      (by rw [hroot, List.append_assoc]) hbefore hrole simple.1
      fun s hs => intime s (List.mem_append_left _ (List.mem_append_left _ hs))
    have hvisible : List.Forall₂ names.Calls (front ++ left.occurrences)
        (before ++ first.entered) := List.rel_append hbefore henteredLeft
    have hlenLeft : (before ++ first.entered).length = before.length + left.occurrences.length := by
      rw [List.length_append, henteredLeft.length_eq]
    have hposLeft := left.length_occurrences_pos
    obtain ⟨second, hsecond, henteredRight⟩ := ihr .joined back hroot hvisible
      (fun _ => by rw [hlenLeft]; omega) simple.2.1
      fun s hs => intime s (List.mem_append_left _ (List.mem_append_right _ (hlenLeft ▸ hs)))
    have hright : right.occurrences ⊆ root.occurrences := by
      rw [hroot]
      exact List.subset_append_of_subset_left _ (List.subset_append_right _ _)
    have hnames : List.Forall₂ names.Calls (front ++ left.occurrences ++ right.occurrences)
        (before ++ first.entered ++ (second.opened kind).map (·.source.name)) :=
      List.rel_append hvisible (hsecond.calls_opened hn hright kind)
    obtain ⟨c, hc, hwithin⟩ := hn.exists_condition_outside
      (intime _ (List.mem_append_right _ (List.mem_singleton_self _))) rfl
    have hposRight := right.length_occurrences_pos
    have hlength := hbefore.length_eq
    simp only at hwithin
    rw [take_occurrences hroot (by simp only [List.length_append]; omega)] at hwithin
    obtain ⟨i, hi⟩ := Join.exists_settles (List.cons_ne_nil _ _) (hwithin (by omega) _ hnames)
    have hjoins : kind = .leftOuter → second.joins = [] := fun hkind =>
      List.map_eq_nil_iff.1 (hsecond.kinds.trans (simple.2.2 hkind))
    exact ⟨_, .join hfirst hsecond hjoins hc hi, List.rel_append henteredLeft henteredRight⟩

end Outside

end Chain

end RelationalSelect
