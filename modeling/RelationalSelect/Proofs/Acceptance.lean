import RelationalSelect.Proofs.Refusals
import RelationalSelect.Proofs.Routing

/-!
Which trees have a statement, and where their join conditions stand.

A tree is refused for an occurrence that stands twice or has joins inside it, for an outer join onto
joins, for an attribute whose owner is nowhere in the tree, and for a predicate of a right operand
with an attribute that is carried only after that operand. Nothing else goes wrong. A join condition
stands in the first clause of the right operand up to which all its attributes are carried.
-/

set_option autoImplicit false

namespace RelationalSelect

namespace Chain

theorem Flattens.simpleOuterJoins {names : Naming} {r : Relation} {view : View} {role : Role}
    {before : List String} {chain : Chain} (h : Flattens names r view role before chain) :
    r.SimpleOuterJoins := by
  induction h with
  | table | aliased => trivial
  | selection _ _ _ ih => exact ih
  | join _ flatRight single _ _ ihl ihr =>
    refine ⟨ihl, ihr, fun hkind => ?_⟩
    rw [← flatRight.kinds, single hkind]
    rfl

theorem Flattens.entered_calls {names : Naming} {root r : Relation}
    (hn : names.Names root.occurrences) (apart : root.AliasesApart) {role : Role}
    {before : List String} {chain : Chain} (h : Flattens names r names.outside role before chain)
    (hr : ∀ o ∈ r.occurrences, o ∈ root.occurrences) :
    List.Forall₂ names.Calls r.occurrences chain.entered := by
  have hmem := (List.forall₂_and_left _ _).2 ⟨hr, h.entered hn hr⟩
  refine hmem.imp ?_
  rintro o t ⟨ho, hname | ⟨b, hb, hname⟩⟩
  · exact hname
  · obtain ⟨d, hd, hid⟩ := hn.mem_of_nameOf hname
    exact absurd (hid ▸ List.mem_map_of_mem hd) (apart o ho b hb)

theorem Routes.mem_placed {names : Naming} {r : Relation} {view : View} {role : Role}
    {before : List String} {chain : Chain} {slots : List Slot}
    (h : Routes names r view role before chain slots) {s : Slot} (hs : s ∈ slots) :
    s.site.toPlaced ∈ r.placed := by
  rw [← r.map_toPlaced_sites role before.length, ← h.sites]
  exact List.mem_map_of_mem (List.mem_map_of_mem hs)

end Chain

namespace Slot

/-- The condition of a join stands in the first clause of its right operand up to which its
attributes are carried. -/
structure Earliest (root : Relation) (s : Slot) : Prop where
  carried : root.CarriedUpTo s.site.toPlaced s.clause
  first : ∀ k, s.site.first ≤ k → k < s.clause → ¬ root.CarriedUpTo s.site.toPlaced k

theorem mem_dealt {slots : List Slot} {s : Slot} (h : s ∈ slots) :
    s.condition ∈ dealt slots s.clause := by
  refine List.mem_map_of_mem (List.mem_append.2 ?_)
  cases hs : s.introduces with
  | true => exact .inl (by simp [h, hs])
  | false => exact .inr (by simp [h, hs])

end Slot

namespace Query

variable {root : Relation} {q : Query} {names : Naming} {chain : Chain} {slots : List Slot}

theorem Routed.exists_join (h : Routed root q slots) {s : Slot} (hs : s ∈ slots)
    (hpos : 0 < s.clause) :
    ∃ j, q.joins[s.clause - 1]? = some j ∧ s.condition ∈ j.conditions := by
  have hbound := h.bounds s hs
  have hget : q.clauseLists[s.clause]? = some (Slot.dealt slots s.clause) := by
    rw [h.dealt, List.getElem?_map, List.getElem?_range hbound]
    rfl
  have hclause : s.clause = s.clause - 1 + 1 := by omega
  rw [hclause, clauseLists, List.getElem?_cons_succ, List.getElem?_map, ← hclause] at hget
  obtain ⟨j, hj, hconditions⟩ := Option.map_eq_some_iff.1 hget
  exact ⟨j, hj, hconditions ▸ Slot.mem_dealt hs⟩

theorem Compiled.calls (h : Compiled root q names chain) :
    List.Forall₂ names.Calls root.occurrences (q.sources.map Source.name) := by
  rw [List.forall₂_map_right_iff]
  exact h.sources_listed.imp fun _ _ ⟨_, _, hn, _⟩ => hn

theorem Compiled.carriedUpTo_iff (h : Compiled root q names chain) (apart : root.AliasesApart)
    {p : Placed} {c : Condition} (hp : p ∈ root.placed)
    (hc : Chain.CompiledAt names names.outside p c) (k : Nat) :
    root.CarriedUpTo p k ↔ c.within ((q.sources.map Source.name).take (k + 1)) = true := by
  exact (h.listed.within_iff (Relation.outermost_mem hp)
    (h.listed.through_eq_carrierWithin apart hp) hc
    (List.take_subset _ _) (List.forall₂_take _ h.calls)).symm

theorem Compiled.visibleAt_eq (h : Compiled root q names chain) (apart : root.AliasesApart)
    {first k : Nat} (hk : first ≤ k) :
    chain.visibleAt [] first k = (q.sources.map Source.name).take (k + 1) := by
  have hentered : chain.entered = q.sources.map Source.name :=
    List.right_unique_forall₂' (fun _ _ _ ha hb => Option.some.inj (ha.symm.trans hb))
      (h.flattens.entered_calls h.listed apart fun _ ho => ho) h.calls
  unfold Chain.visibleAt
  rw [hentered, ← h.sources_eq, List.nil_append, List.length_nil, Nat.sub_zero, Nat.sub_zero,
    List.map_drop, List.map_take]
  have htake : (q.sources.map Source.name).take first =
      ((q.sources.map Source.name).take (k + 1)).take first := by
    rw [List.take_take, Nat.min_eq_left (by omega)]
  rw [htake, List.take_append_drop]

theorem Compiled.earliest (h : Compiled root q names chain) (apart : root.AliasesApart)
    (routes : chain.Routes names root names.outside .leading [] slots) {s : Slot} (hs : s ∈ slots)
    (join : s.site.node.isJoin = true) : s.Earliest root := by
  have hplaced := routes.mem_placed hs
  have hsettled := routes.settled s hs join
  have hfirst := (routes.range s hs).1
  constructor
  · rw [h.carriedUpTo_iff apart hplaced (routes.compiled s hs), ← h.visibleAt_eq apart hfirst]
    exact hsettled.within
  · intro k hk hkc
    rw [h.carriedUpTo_iff apart hplaced (routes.compiled s hs), ← h.visibleAt_eq apart hk,
      hsettled.first k hk hkc]
    exact Bool.false_ne_true

theorem Compiled.acceptable (h : Compiled root q names chain) (apart : root.AliasesApart) :
    root.Acceptable := by
  obtain ⟨slots, routes⟩ := h.flattens.routes fun _ => rfl
  constructor
  · exact h.listed.ids_nodup
  · intro o ho
    obtain ⟨e, -, he⟩ := h.listed.get?_of_mem ho
    exact o.baseName_ok_iff.1 ⟨_, he.base_eq⟩
  · exact h.flattens.simpleOuterJoins
  · exact fun p hp x hx => h.owner_mem hp hx
  · intro s hs hpos
    have hfirst := Relation.first_pos_of_last_pos hs hpos
    rw [← List.length_nil, ← routes.sites] at hs
    obtain ⟨t, ht, rfl⟩ := List.mem_map.1 hs
    have hrange := routes.range t ht
    obtain ⟨j, hj, hc⟩ := (h.routed routes).exists_join ht (by omega)
    rw [h.carriedUpTo_iff apart (routes.mem_placed ht) (routes.compiled t ht),
      Condition.within_iff]
    intro table htable
    have hscope := h.onInScope apart _ j hj _ hc table htable
    rw [List.map_take] at hscope
    exact List.take_subset_take_left _ (by omega) hscope

theorem exists_compiled (acceptable : root.Acceptable) (apart : root.AliasesApart)
    (owned : ∀ p ∈ root.placed, ∀ x ∈ p.predicate.refs, x.owner ∈ root.ids →
      ∃ o ∈ root.occurrences, x.owner ∈ o.ids) : ∃ q, compile root = .ok q := by
  obtain ⟨names, hassign⟩ := Naming.exists_assign acceptable.distinct acceptable.single
  have hn := Naming.names_of_assign hassign
  have intime : ∀ s ∈ root.sites .leading 0, root.CarriesInTime s := by
    intro s hs x hx
    have hplaced : s.toPlaced ∈ root.placed := by
      rw [← root.map_toPlaced_sites .leading 0]
      exact List.mem_map_of_mem hs
    obtain ⟨o, ho⟩ := Relation.exists_carrierWithin s.around.getLast?
      (owned _ hplaced x hx (acceptable.known _ hplaced x hx))
    refine ⟨o, ho, fun hpos => ?_⟩
    obtain ⟨o₁, hmem, ho₁⟩ := acceptable.inTime s hs hpos x hx
    rw [ho] at ho₁
    exact Option.some.inj ho₁ ▸ hmem
  obtain ⟨chain, hflat, -⟩ := Chain.exists_flattens hn apart acceptable.single .leading [] (by simp)
    .nil (fun hrole => nomatch hrole) acceptable.simple intime
  obtain ⟨columns, hcolumns⟩ := hn.exists_columns
  exact ⟨⟨columns, chain.source, chain.joins, chain.conditions⟩,
    compile_of_compiled ⟨hassign, hn, hflat, hcolumns, rfl, rfl, rfl⟩⟩

/-- Exactly the acceptable trees have a statement, and its join conditions stand as early as they
can. -/
theorem compile_iff_acceptable {family : Relation → Prop} (coherent : Relation.Coherent family)
    (member : family root)
    (obtained : ∀ p ∈ root.placed, ∀ x ∈ p.predicate.refs, Relation.Obtained family x)
    (apart : root.AliasesApart) : ((∃ q, compile root = .ok q) ↔ root.Acceptable) ∧
      ∀ q, compile root = .ok q → ∃ slots, Routed root q slots ∧
        ∀ s ∈ slots, s.site.node.isJoin = true → s.Earliest root := by
  refine ⟨⟨?_, fun acceptable => ?_⟩, ?_⟩
  · rintro ⟨q, hq⟩
    obtain ⟨names, chain, h⟩ := compiled_of_ok hq
    exact h.acceptable apart
  · exact exists_compiled acceptable apart fun p hp x hx known =>
      (obtained p hp x hx).exists_occurrence coherent member known
  · intro q hq
    obtain ⟨names, chain, h⟩ := compiled_of_ok hq
    obtain ⟨slots, routes⟩ := h.flattens.routes fun _ => rfl
    exact ⟨slots, h.routed routes, fun s hs join => h.earliest apart routes hs join⟩

/-- Orders joined with their items and with the customer: a condition of the inner join waits for
the second table of the right operand. -/
def orders : Relation :=
  let orders := Relation.table ⟨0⟩ "orders" ["id", "customer"]
  let items := Relation.table ⟨1⟩ "items" ["order", "price"]
  let people := Relation.table ⟨2⟩ "people" ["id", "limit"]
  let limited := Relation.selection ⟨3⟩ people
    (.binary .lt (.ref ⟨⟨2⟩, "id"⟩) (.ref ⟨⟨2⟩, "limit"⟩))
  let customer := Relation.aliased ⟨4⟩ limited
  let bought := Relation.join ⟨5⟩ .leftOuter items customer
    (.binary .le (.ref ⟨⟨1⟩, "price"⟩) (.ref ⟨⟨4⟩, "limit"⟩))
  .join ⟨6⟩ .inner orders bought (.binary .eq (.ref ⟨⟨0⟩, "customer"⟩) (.ref ⟨⟨4⟩, "id"⟩))

theorem coherent_orders : Relation.Coherent (· ∈ orders.nodes) :=
  Relation.coherent_nodes (by decide)

theorem acceptable_orders : Relation.Coherent (· ∈ orders.nodes) ∧ orders ∈ orders.nodes ∧
    (∀ p ∈ orders.placed, ∀ x ∈ p.predicate.refs, Relation.Obtained (· ∈ orders.nodes) x) ∧
    orders.AliasesApart ∧ ((∃ q, compile orders = .ok q) ↔ orders.Acceptable) ∧
      ∀ q, compile orders = .ok q → ∃ slots, Routed orders q slots ∧
        ∀ s ∈ slots, s.site.node.isJoin = true → s.Earliest orders := by
  have hmember : orders ∈ orders.nodes := List.mem_cons_self
  have hobtained : ∀ p ∈ orders.placed, ∀ x ∈ p.predicate.refs,
      Relation.Obtained (· ∈ orders.nodes) x := by
    have hlisted : ∀ p ∈ orders.placed, ∀ x ∈ p.predicate.refs,
        ∃ r ∈ orders.nodes, x ∈ r.attributes := by decide
    intro p hp x hx
    obtain ⟨r, hr, hmem⟩ := hlisted p hp x hx
    exact .listed hr hmem
  have hapart : orders.AliasesApart := by decide
  exact ⟨coherent_orders, hmember, hobtained, hapart,
    compile_iff_acceptable coherent_orders hmember hobtained hapart⟩

example : ¬ (Relation.join ⟨8⟩ .leftOuter (.table ⟨7⟩ "days" []) orders
    (.literal (.boolean true))).Acceptable := by decide

end Query

end RelationalSelect
