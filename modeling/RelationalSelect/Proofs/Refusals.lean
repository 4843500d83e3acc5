import RelationalSelect.Proofs.InTime

/-!
Why a tree has no statement.

Names are refused for an occurrence that stands twice or has joins inside it. Once names are given,
every table and every alias of the tree goes by one wherever it is met, and no alias has joins
inside it. So what is left to refuse is an outer join onto joins, a condition that comes too early,
and an attribute whose owner is no part of an occurrence.
-/

set_option autoImplicit false

namespace RelationalSelect

theorem bind_eq_error_iff {ε α β : Type} {x : Except ε α} {f : α → Except ε β} {e : ε} :
    x >>= f = .error e ↔ x = .error e ∨ ∃ a, x = .ok a ∧ f a = .error e := by
  cases x with
  | error e₁ => simp [bind, Except.bind]
  | ok a => simp [bind, Except.bind]

theorem Expr.exists_error_of_mapM {α β ε : Type} {f : α → Except ε β} {p : Expr α} {e : ε}
    (h : p.mapM f = .error e) : ∃ a ∈ p.refs, f a = .error e := by
  induction p with
  | ref a =>
    rcases bind_eq_error_iff.1 h with h | ⟨b, -, h⟩
    · exact ⟨a, List.mem_singleton_self a, h⟩
    · cases h
  | literal => cases h
  | binary op l r ihl ihr =>
    rcases bind_eq_error_iff.1 h with h | ⟨l₁, -, h⟩
    · obtain ⟨a, ha, hf⟩ := ihl h
      exact ⟨a, List.mem_append_left _ ha, hf⟩
    · rcases bind_eq_error_iff.1 h with h | ⟨r₁, -, h⟩
      · obtain ⟨a, ha, hf⟩ := ihr h
        exact ⟨a, List.mem_append_right _ ha, hf⟩
      · cases h

namespace View

theorem display_ne_error {view : View} {id : Identity} (h : ∃ t, view id = some t) (e : Error) :
    view.display id ≠ .error e := by
  obtain ⟨t, ht⟩ := h
  rw [display_of_eq ht]
  exact nofun

theorem column_eq_error {view : View} {x : Attribute} {e : Error}
    (h : view.column x = .error e) : view x.owner = none ∧ e = .unknownAttribute x.name := by
  unfold column at h
  split at h
  · cases h
  · next hnone => exact ⟨hnone, (Except.error.inj h).symm⟩

end View

namespace Relation

theorem baseName_eq_error {r : Relation} {e : Error} (h : r.baseName = .error e) :
    e = .malformedTree .joinWithoutBase := by
  induction r with
  | table => cases h
  | aliased _ _ ih | selection _ _ _ ih => exact ih h
  | join => exact (Except.error.inj h).symm

theorem joinKinds_of_mem_occurrences {r o : Relation} (single : r.joinKinds = [])
    (h : o ∈ r.occurrences) : o.joinKinds = [] := by
  induction r with
  | table | aliased => rwa [List.mem_singleton.1 h]
  | selection _ _ _ ih => exact ih single h
  | join => simp [joinKinds] at single

end Relation

namespace Naming

theorem add_eq_error {names : Naming} {r : Relation} {e : Error}
    (h : (names.add r).outcome = .error e) :
    e = .malformedTree .repeatedOccurrence ∨ e = .malformedTree .joinWithoutBase := by
  unfold add at h
  split at h
  · exact .inl (Except.error.inj h).symm
  · simp only [Logged.liftM_eq, Logged.outcome_bind, Logged.outcome_ofExcept] at h
    rcases bind_eq_error_iff.1 h with h | ⟨base, -, h⟩
    · exact .inr (Relation.baseName_eq_error h)
    · cases h

theorem foldlM_eq_error {names : Naming} {rs : List Relation} {e : Error}
    (h : (rs.foldlM add names).outcome = .error e) :
    e = .malformedTree .repeatedOccurrence ∨ e = .malformedTree .joinWithoutBase := by
  induction rs generalizing names with
  | nil => cases h
  | cons r rs ih =>
    simp only [List.foldlM_cons, Logged.outcome_bind] at h
    rcases bind_eq_error_iff.1 h with h | ⟨names₁, -, h⟩
    · exact add_eq_error h
    · exact ih h

theorem assign_eq_error {root : Relation} {e : Error} (h : (assign root).outcome = .error e) :
    e = .malformedTree .repeatedOccurrence ∨ e = .malformedTree .joinWithoutBase := by
  unfold assign at h
  rw [Relation.forOccurrences_eq_foldlM] at h
  simp only [Logged.outcome_bind] at h
  rcases bind_eq_error_iff.1 h with h | ⟨names, -, h⟩
  · exact foldlM_eq_error h
  · cases h

theorem exists_inside {names : Naming} {view : View} {x : Identity} (h : ∃ t, view x = some t)
    (a : Identity) : ∃ t, names.inside a view x = some t := by
  unfold inside
  split
  · split
    · exact ⟨_, rfl⟩
    · exact h
  · exact h

theorem exists_through {names : Naming} {view : View} {x : Identity} (h : ∃ t, view x = some t)
    (around : List Relation) : ∃ t, names.through around view x = some t := by
  induction around with
  | nil => exact h
  | cons a around ih => exact exists_inside ih a.id

theorem Names.through_iff {names : Naming} {root : Relation} (hn : names.Names root.occurrences)
    (around : List Relation) (x : Identity) :
    (∃ t, names.through around names.outside x = some t) ↔ ∃ o ∈ root.occurrences, x ∈ o.ids := by
  constructor
  · rintro ⟨t, ht⟩
    rw [through_eq] at ht
    split at ht
    · next a ha =>
      obtain ⟨o, ho, -, hx⟩ := hn.shows_iff.1 (List.find?_some ha)
      exact ⟨o, ho, hx⟩
    · rw [hn.outside_eq] at ht
      obtain ⟨o, ho, -⟩ := Option.bind_eq_some_iff.1 ht
      exact ⟨o, Relation.carrier_mem ho, Relation.mem_ids_of_carrier ho⟩
  · intro h
    obtain ⟨o, ho⟩ := Relation.exists_carrier h
    obtain ⟨t, ht⟩ := hn.exists_nameOf (Relation.carrier_mem ho)
    refine exists_through ⟨t, ?_⟩ around
    rw [hn.outside_eq, ho]
    exact ht

end Naming

namespace Chain

/-- What can be wrong with a part of a tree that has these predicates, once names are given. -/
inductive Refusal (names : Naming) (view : View) (ps : List Placed) : Error → Prop
  | unknown {p : Placed} {x : Attribute} (placed : p ∈ ps) (mem : x ∈ p.predicate.refs)
      (unnamed : names.through p.around view x.owner = none) :
      Refusal names view ps (.unknownAttribute x.name)
  | compound : Refusal names view ps (.malformedTree .compoundOuterJoin)
  | earlySelection : Refusal names view ps (.malformedTree .earlySelection)
  | earlyJoin : Refusal names view ps (.malformedTree .earlyJoinCondition)

variable {names : Naming} {view : View} {e : Error}

theorem Refusal.mono {ps qs : List Placed} (h : Refusal names view ps e) (hsub : ps ⊆ qs) :
    Refusal names view qs e := by
  cases h with
  | unknown placed mem unnamed => exact .unknown (hsub placed) mem unnamed
  | compound => exact .compound
  | earlySelection => exact .earlySelection
  | earlyJoin => exact .earlyJoin

theorem Refusal.aliased {id : Identity} {inner : Relation}
    (h : Refusal names (names.inside id view) inner.placed e) :
    Refusal names view (Relation.aliased id inner).placed e := by
  cases h with
  | unknown placed mem unnamed =>
    refine .unknown (List.mem_map_of_mem placed) mem ?_
    rw [Naming.through_append]
    exact unnamed
  | compound => exact .compound
  | earlySelection => exact .earlySelection
  | earlyJoin => exact .earlyJoin

theorem Refusal.predicate {p : Predicate} (h : view.condition p = .error e) :
    Refusal names view [⟨[], p⟩] e := by
  obtain ⟨x, hx, hcolumn⟩ := Expr.exists_error_of_mapM h
  obtain ⟨hnone, rfl⟩ := View.column_eq_error hcolumn
  exact .unknown (List.mem_singleton_self _) hx hnone

theorem clauses_eq_error {right : Chain} {kind : JoinKind} {c : Condition} {visible : List String}
    (h : (right.clauses kind c visible).outcome = .error e) :
    e = .malformedTree .earlyJoinCondition := by
  simp only [clauses] at h
  split at h
  · cases h
  · split at h
    · cases h
    · exact (Except.error.inj h).symm

/-- Where the occurrences go by names and have no joins inside them, a part of a tree is refused
for nothing else. -/
theorem refusal_of_error {r : Relation} {role : Role} {before : List String}
    (named : ∀ o ∈ r.occurrences, ∀ x ∈ o.ids, ∃ t, view x = some t)
    (single : ∀ o ∈ r.occurrences, o.joinKinds = [])
    (h : (ofRelation names r view role before).outcome = .error e) :
    Refusal names view r.placed e := by
  induction r generalizing view role before with
  | table id name columns =>
    simp only [ofRelation, Logged.liftM_eq, Logged.outcome_bind, Logged.outcome_ofExcept] at h
    have hnamed := named _ (List.mem_singleton_self _) id (List.mem_singleton_self id)
    rcases bind_eq_error_iff.1 h with h | ⟨display, -, h⟩
    · exact absurd h (View.display_ne_error hnamed e)
    · cases h
  | aliased id inner ih =>
    simp only [ofRelation, Logged.liftM_eq, Logged.outcome_bind, Logged.outcome_ofExcept] at h
    have hnamed := named (.aliased id inner) (List.mem_singleton_self _)
    have hsingle : inner.joinKinds = [] := single (.aliased id inner) (List.mem_singleton_self _)
    rcases bind_eq_error_iff.1 h with h | ⟨display, -, h⟩
    · exact absurd h (View.display_ne_error (hnamed id List.mem_cons_self) e)
    · rcases bind_eq_error_iff.1 h with h | ⟨chain, hchain, h⟩
      · refine (ih (fun o ho x hx => ?_)
          (fun o ho => Relation.joinKinds_of_mem_occurrences hsingle ho) h).aliased
        have hmem := Relation.ids_subset_of_mem_occurrences ho hx
        exact Naming.exists_inside (hnamed x (List.mem_cons_of_mem _ hmem)) id
      · -- the inside has no joins, so its chain has none
        have hjoins : chain.joins = [] :=
          List.map_eq_nil_iff.1 ((flattens_of_ok hchain).kinds.trans hsingle)
        rw [if_pos (List.isEmpty_iff.2 hjoins)] at h
        cases h
  | selection id inner predicate ih =>
    simp only [ofRelation, Logged.liftM_eq, Logged.outcome_bind, Logged.outcome_ofExcept] at h
    rcases bind_eq_error_iff.1 h with h | ⟨chain, -, h⟩
    · exact (ih named single h).mono (List.subset_append_left _ _)
    · rcases bind_eq_error_iff.1 h with h | ⟨c, -, h⟩
      · exact (Refusal.predicate h).mono (List.subset_append_right _ _)
      · split at h
        · cases h
          exact .earlySelection
        · cases h
  | join id kind left right predicate ihl ihr =>
    simp only [ofRelation, Logged.liftM_eq, Logged.outcome_bind] at h
    rcases bind_eq_error_iff.1 h with h | ⟨first, -, h⟩
    · have hleft := ihl (fun o ho => named o (List.mem_append_left _ ho))
        (fun o ho => single o (List.mem_append_left _ ho)) h
      exact hleft.mono fun p hp => List.mem_append_left _ (List.mem_append_left _ hp)
    · rcases bind_eq_error_iff.1 h with h | ⟨second, -, h⟩
      · have hright := ihr (fun o ho => named o (List.mem_append_right _ ho))
          (fun o ho => single o (List.mem_append_right _ ho)) h
        exact hright.mono fun p hp => List.mem_append_left _ (List.mem_append_right _ hp)
      · split at h
        · cases h
          exact .compound
        · simp only [Logged.outcome_bind, Logged.outcome_ofExcept] at h
          rcases bind_eq_error_iff.1 h with h | ⟨c, -, h⟩
          · exact (Refusal.predicate h).mono (List.subset_append_right _ _)
          · rcases bind_eq_error_iff.1 h with h | ⟨joins, -, h⟩
            · exact clauses_eq_error h ▸ .earlyJoin
            · cases h

theorem refusal_of_assigned {names : Naming} {root : Relation} {e : Error}
    (hn : names.Names root.occurrences)
    (h : (ofRelation names root names.outside .leading []).outcome = .error e) :
    Refusal names names.outside root.placed e := by
  refine refusal_of_error (fun o ho x hx => ?_) (fun o ho => ?_) h
  · exact (hn.through_iff [] x).2 ⟨o, ho, hx⟩
  · obtain ⟨occurrence, -, hcalled⟩ := hn.get?_of_mem ho
    exact o.baseName_ok_iff.1 ⟨_, hcalled.base_eq⟩

theorem Refusal.unknown_inv {names : Naming} {view : View} {ps : List Placed} {n : String}
    (h : Refusal names view ps (.unknownAttribute n)) :
    ∃ p ∈ ps, ∃ x ∈ p.predicate.refs, x.name = n ∧ names.through p.around view x.owner = none := by
  cases h with
  | unknown placed mem unnamed => exact ⟨_, placed, _, mem, rfl, unnamed⟩

theorem Refusal.ne_defensive {names : Naming} {view : View} {ps : List Placed} {e : Error}
    (h : Refusal names view ps e) :
    e ≠ .malformedTree .aliasedJoin ∧ e ≠ .malformedTree .unnamedRelation := by
  cases h <;> exact ⟨nofun, nofun⟩

end Chain

theorem Malformation.message_inj {a b : Malformation} (h : a.message = b.message) : a = b := by
  cases a <;> cases b <;> simp_all [message]

theorem append_ne_append {s₁ s₂ : String} {a b : Char} (h₁ : s₁.toList.head? = some a)
    (h₂ : s₂.toList.head? = some b) (hne : a ≠ b) (t₁ t₂ : String) : s₁ ++ t₁ ≠ s₂ ++ t₂ := by
  intro h
  have hfirst := congrArg (·.toList.head?) h
  simp only [String.toList_append, List.head?_append, h₁, h₂, Option.some_or] at hfirst
  exact hne (Option.some.inj hfirst)

theorem Error.message_ne {e : Error} {cause : Malformation} (h : e ≠ .malformedTree cause) :
    e.message ≠ (Error.malformedTree cause).message := by
  cases e with
  | unknownAttribute name | unknownTable name =>
    exact append_ne_append (a := 'U') (b := 'M') (by decide) (by decide) (by decide) _ _
  | malformedTree other =>
    intro hmessage
    have hcause := (String.append_right_inj _).1 hmessage
    exact h (congrArg _ (Malformation.message_inj hcause))

namespace Query

theorem refusal_of_compile {root : Relation} {e : Error} (h : compile root = .error e) :
    e = .malformedTree .repeatedOccurrence ∨ e = .malformedTree .joinWithoutBase ∨
      ∃ names, names.Names root.occurrences ∧
        Chain.Refusal names names.outside root.placed e := by
  simp only [compile, compileLogged, Logged.liftM_eq, Logged.outcome_bind,
    Logged.outcome_ofExcept] at h
  rcases bind_eq_error_iff.1 h with h | ⟨names, hassign, h⟩
  · exact (Naming.assign_eq_error h).imp id .inl
  · have hn := Naming.names_of_assign hassign
    obtain ⟨columns, hcolumns⟩ := hn.exists_columns
    rcases bind_eq_error_iff.1 h with h | ⟨chain, -, h⟩
    · exact .inr (.inr ⟨names, hn, Chain.refusal_of_assigned hn h⟩)
    · rw [hcolumns] at h
      cases h

structure TruthfulErrors (root : Relation) : Prop where
  /-- An attribute is unknown only if its owner is nowhere in the tree. -/
  unknown : ∀ n, compile root = .error (.unknownAttribute n) →
    ∃ p ∈ root.placed, ∃ x ∈ p.predicate.refs, x.name = n ∧ x.owner ∉ root.ids
  /-- No such attribute is passed over. -/
  noticed : ∀ p ∈ root.placed, ∀ x ∈ p.predicate.refs, x.owner ∉ root.ids →
    ∀ q, compile root ≠ .ok q
  /-- Once names are given, the columns can be listed. -/
  listed : ∀ names, (Naming.assign root).outcome = .ok names →
    ∃ columns, root.attributes.mapM names.outside.column = .ok columns
  /-- Once names are given, no alias has joins inside it and no relation lacks a name. -/
  flattened : ∀ names, (Naming.assign root).outcome = .ok names → ∀ e,
    (Chain.ofRelation names root names.outside .leading []).outcome = .error e →
      e ≠ .malformedTree .aliasedJoin ∧ e ≠ .malformedTree .unnamedRelation
  worded : ∀ e, compile root = .error e →
    e.message ≠ "Malformed relation tree: cannot alias a join" ∧
      e.message ≠ "Malformed relation tree: relation was not named"

theorem ne_defensive_of_compile {root : Relation} {e : Error} (h : compile root = .error e) :
    e ≠ .malformedTree .aliasedJoin ∧ e ≠ .malformedTree .unnamedRelation := by
  rcases refusal_of_compile h with rfl | rfl | ⟨names, -, hrefusal⟩
  · exact ⟨nofun, nofun⟩
  · exact ⟨nofun, nofun⟩
  · exact hrefusal.ne_defensive

theorem unowned_of_unknown {root : Relation} {n : String}
    (h : compile root = .error (.unknownAttribute n)) :
    ∃ p ∈ root.placed, ∃ x ∈ p.predicate.refs, x.name = n ∧
      ¬∃ o ∈ root.occurrences, x.owner ∈ o.ids := by
  rcases refusal_of_compile h with h | h | ⟨names, hn, hrefusal⟩
  · cases h
  · cases h
  · obtain ⟨p, hp, x, hx, hname, hnone⟩ := hrefusal.unknown_inv
    refine ⟨p, hp, x, hx, hname, fun howned => ?_⟩
    obtain ⟨t, ht⟩ := (hn.through_iff p.around x.owner).2 howned
    rw [hnone] at ht
    cases ht

theorem Compiled.owner_mem {root : Relation} {q : Query} {names : Naming} {chain : Chain}
    (h : Compiled root q names chain) {p : Placed} (hp : p ∈ root.placed) {x : Attribute}
    (hx : x ∈ p.predicate.refs) : x.owner ∈ root.ids := by
  obtain ⟨cs, hcs, -⟩ := h.conjuncts
  obtain ⟨c, -, hc⟩ := exists_of_forall₂ hcs.flip hp
  obtain ⟨col, -, hcol, -⟩ := exists_of_forall₂ (View.rel_of_condition hc).refs.flip hx
  obtain ⟨o, ho, hown⟩ := (h.listed.through_iff p.around x.owner).1 ⟨_, hcol⟩
  exact Relation.ids_subset_of_mem_occurrences ho hown

/-- The errors of a tree tell the truth if its predicates use the attributes that relations give
out. -/
theorem truthful_of_obtained {family : Relation → Prop} (coherent : Relation.Coherent family)
    {root : Relation} (member : family root)
    (obtained : ∀ p ∈ root.placed, ∀ x ∈ p.predicate.refs, Relation.Obtained family x) :
    TruthfulErrors root where
  unknown n h := by
    obtain ⟨p, hp, x, hx, hname, hunowned⟩ := unowned_of_unknown h
    refine ⟨p, hp, x, hx, hname, fun hmem => hunowned ?_⟩
    exact (obtained p hp x hx).exists_occurrence coherent member hmem
  noticed p hp x hx hforeign q h := by
    obtain ⟨names, chain, hcompiled⟩ := compiled_of_ok h
    exact hforeign (hcompiled.owner_mem hp hx)
  listed names hassign := (Naming.names_of_assign hassign).exists_columns
  flattened names hassign e h :=
    (Chain.refusal_of_assigned (Naming.names_of_assign hassign) h).ne_defensive
  worded e h := by
    obtain ⟨haliased, hunnamed⟩ := ne_defensive_of_compile h
    exact ⟨Error.message_ne haliased, Error.message_ne hunnamed⟩

/-- Users joined with others, who are chosen by a table that is not there. -/
def strangers : Relation :=
  let users := Relation.table ⟨0⟩ "users" ["id"]
  let chosen := Relation.selection ⟨2⟩ users (.binary .eq (.ref ⟨⟨0⟩, "id"⟩) (.ref ⟨⟨1⟩, "key"⟩))
  .join ⟨4⟩ .inner users (.aliased ⟨3⟩ chosen)
    (.binary .ne (.ref ⟨⟨0⟩, "id"⟩) (.ref ⟨⟨3⟩, "id"⟩))

def strangersWithKeys : Relation :=
  .join ⟨5⟩ .inner (.table ⟨1⟩ "keys" ["key"]) strangers (.literal (.boolean true))

theorem truthful_strangers : Relation.Coherent (· ∈ strangersWithKeys.nodes) ∧
    strangers ∈ strangersWithKeys.nodes ∧
    (∀ p ∈ strangers.placed, ∀ x ∈ p.predicate.refs,
      Relation.Obtained (· ∈ strangersWithKeys.nodes) x) ∧
    compile strangers = .error (.unknownAttribute "key") ∧ TruthfulErrors strangers := by
  have hcoherent : Relation.Coherent (· ∈ strangersWithKeys.nodes) :=
    Relation.coherent_nodes (by decide)
  have hmember : strangers ∈ strangersWithKeys.nodes := by decide
  have hobtained : ∀ p ∈ strangers.placed, ∀ x ∈ p.predicate.refs,
      Relation.Obtained (· ∈ strangersWithKeys.nodes) x := by
    have hlisted : ∀ p ∈ strangers.placed, ∀ x ∈ p.predicate.refs,
        ∃ r ∈ strangersWithKeys.nodes, x ∈ r.attributes := by decide
    intro p hp x hx
    obtain ⟨r, hr, hmem⟩ := hlisted p hp x hx
    exact .listed hr hmem
  exact ⟨hcoherent, hmember, hobtained, by decide,
    truthful_of_obtained hcoherent hmember hobtained⟩

end Query

end RelationalSelect
