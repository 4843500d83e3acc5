import RelationalSelect.Proofs.Flattening
import RelationalSelect.Proofs.Reading.Conjunctions

set_option autoImplicit false

namespace RelationalSelect

open Condition (spine)

namespace Condition

def operandSql (c : Condition) : List Char :=
  parenthesizedIf (c.precedence ≤ Operator.and.precedence) (Condition.sql c)

theorem conjunctSql_of_not_and {c : Condition} (h : ∀ l r, c = .binary .and l r → False) :
    c.conjunctSql = c.operandSql := by
  have hne := precedence_ne_of_not_and h
  unfold conjunctSql operandSql parenthesizedIf
  by_cases hle : c.precedence ≤ Operator.and.precedence
  · rw [if_pos hle, if_pos (by omega)]
  · rw [if_neg hle, if_neg (by omega)]

theorem conjunctSql_and (l r : Condition) : conjunctSql (.binary .and l r) =
    conjunctSql l ++ (" AND ".toList ++ operandSql r) := by
  have hself : ¬ (Expr.binary .and l r : Condition).precedence < Operator.and.precedence :=
    Nat.lt_irrefl _
  have hand : " AND ".toList = ' ' :: Operator.and.token.toList ++ [' '] := by decide
  rw [conjunctSql, parenthesizedIf, if_neg hself, hand]
  simp only [Condition.sql, Expr.sql, conjunctSql, operandSql, List.append_assoc,
    List.cons_append, List.nil_append]

theorem further_conjunctSql (c : Condition) : " AND ".toList ++ c.conjunctSql =
    (spine c).flatMap fun d => " AND ".toList ++ d.operandSql := by
  fun_induction spine c with
  | case1 l r ih =>
    rw [conjunctSql_and, ← List.append_assoc, ih, List.flatMap_append, List.flatMap_singleton]
  | case2 c h => rw [conjunctSql_of_not_and h, List.flatMap_singleton]

theorem spine_ne_nil (c : Condition) : spine c ≠ [] := by
  fun_induction spine c <;> simp

end Condition

/-- Conjuncts with the same operands on their left spines. -/
def SameSpines (cs cs₁ : List Condition) : Prop := cs.flatMap spine = cs₁.flatMap spine

namespace SameSpines

variable {cs cs₁ ds ds₁ : List Condition}

theorem refl (cs : List Condition) : SameSpines cs cs := rfl

theorem symm (h : SameSpines cs cs₁) : SameSpines cs₁ cs := Eq.symm h

theorem append (h : SameSpines cs cs₁) (h₁ : SameSpines ds ds₁) :
    SameSpines (cs ++ ds) (cs₁ ++ ds₁) := by
  unfold SameSpines at *
  rw [List.flatMap_append, List.flatMap_append, h, h₁]

/-- A conjunct that is no AND may be taken into the one before it. -/
theorem conjoined {d : Condition} (c : Condition) (h : spine d = [d]) :
    SameSpines [c, d] [.binary .and c d] := by
  simp [SameSpines, spine, h]

theorem eq_nil_iff (h : SameSpines cs cs₁) : cs = [] ↔ cs₁ = [] := by
  have hnil : ∀ cs : List Condition, cs.flatMap spine = [] ↔ cs = [] := by
    intro cs
    cases cs with
    | nil => exact ⟨fun _ => rfl, fun _ => rfl⟩
    | cons c cs => simp [Condition.spine_ne_nil c]
  rw [← hnil cs, ← hnil cs₁, h]

theorem conjunctionSql_eq (h : SameSpines cs cs₁) : conjunctionSql cs = conjunctionSql cs₁ := by
  -- with an AND before it, the row of conjuncts is the row of the operands on their spines
  have hrow : ∀ cs ≠ [], " AND ".toList ++ conjunctionSql cs =
      (cs.flatMap spine).flatMap fun d => " AND ".toList ++ d.operandSql := by
    intro cs hne
    obtain ⟨c, cs, rfl⟩ := List.exists_cons_of_ne_nil hne
    rw [conjunctionSql, List.map_cons, intercalate_cons_flatMap, List.flatMap_map,
      ← List.append_assoc, List.flatMap_assoc, List.flatMap_cons]
    simp only [Condition.further_conjunctSql]
  by_cases hnil : cs = []
  · rw [hnil, h.eq_nil_iff.1 hnil]
  · have hnil₁ : cs₁ ≠ [] := fun heq => hnil (h.eq_nil_iff.2 heq)
    have heq := hrow cs hnil
    rw [h, ← hrow cs₁ hnil₁] at heq
    exact List.append_cancel_left heq

end SameSpines

theorem forall₂_modify {α β : Type} {R : α → β → Prop} {f : α → α} {g : β → β}
    (hfg : ∀ a b, R a b → R (f a) (g b)) {l : List α} {m : List β} (h : List.Forall₂ R l m)
    (i : Nat) : List.Forall₂ R (l.modify i f) (m.modify i g) := by
  induction h generalizing i with
  | nil => simp
  | cons hab htail ih =>
    cases i with
    | zero => exact .cons (hfg _ _ hab) htail
    | succ i => exact .cons hab (ih i)

theorem Join.Settles.congr {c : Condition} {visible : List String} {joins joins₁ : List Join}
    {i : Nat} (h : Settles c visible joins i)
    (sources : joins.map Join.source = joins₁.map Join.source) : Settles c visible joins₁ i := by
  have hnames : ∀ k, (joins.take k).map (·.source.name) = (joins₁.take k).map (·.source.name) := by
    intro k
    have heq := congrArg (fun l : List Source => (l.take k).map Source.name) sources
    simpa only [List.map_take, List.map_map, Function.comp_def] using heq
  have hlength : joins.length = joins₁.length := by simpa using congrArg List.length sources
  exact ⟨hlength ▸ h.lt, hnames _ ▸ h.within, fun k hk => hnames _ ▸ h.first k hk⟩

namespace Chain

def addConditions (chain : Chain) (role : Role) (cs : List Condition) : Chain :=
  if role = .joined ∧ chain.joins ≠ [] then
    { chain with joins := chain.joins.modify (chain.joins.length - 1) fun j =>
        { j with conditions := j.conditions ++ cs } }
  else
    { chain with conditions := chain.conditions ++ cs }

theorem restrict_eq (chain : Chain) (role : Role) (c : Condition) :
    chain.restrict role c = chain.addConditions role [c] := by
  unfold addConditions
  rcases chain.restrict_cases role c with ⟨hrole, hjoins, h⟩ | ⟨hfirst, h⟩
  · rw [h, if_pos ⟨hrole, hjoins⟩]
    rfl
  · rw [h, if_neg]
    rintro ⟨rfl, hjoins⟩
    exact hfirst.elim nofun hjoins

theorem addConditions_addConditions (chain : Chain) (role : Role) (cs ds : List Condition) :
    (chain.addConditions role cs).addConditions role ds =
      chain.addConditions role (cs ++ ds) := by
  by_cases h : role = .joined ∧ chain.joins ≠ []
  · simp [addConditions, h, List.modify_modify_eq, Function.comp_def]
  · simp [addConditions, h]

end Chain

structure Join.Regrouped (j j₁ : Join) : Prop where
  kind_eq : j.kind = j₁.kind
  source_eq : j.source = j₁.source
  conditions : SameSpines j.conditions j₁.conditions

namespace Join.Regrouped

variable {j j₁ : Join}

theorem symm (h : j.Regrouped j₁) : j₁.Regrouped j :=
  ⟨h.kind_eq.symm, h.source_eq.symm, h.conditions.symm⟩

theorem receive (h : j.Regrouped j₁) (i : Nat) (c : Condition) :
    (j.receive i c).Regrouped (j₁.receive i c) := by
  unfold Join.receive
  split
  · exact ⟨h.kind_eq, h.source_eq, SameSpines.append (.refl [c]) h.conditions⟩
  · exact ⟨h.kind_eq, h.source_eq, h.conditions.append (.refl [c])⟩

theorem sql_eq (h : j.Regrouped j₁) (style : Style) : j.sql style = j₁.sql style := by
  unfold Join.sql
  rw [h.kind_eq, h.source_eq, h.conditions.conjunctionSql_eq]

end Join.Regrouped

structure Chain.Regrouped (chain chain₁ : Chain) : Prop where
  source_eq : chain.source = chain₁.source
  conditions : SameSpines chain.conditions chain₁.conditions
  joins : List.Forall₂ Join.Regrouped chain.joins chain₁.joins
  entered_eq : chain.entered = chain₁.entered

namespace Chain.Regrouped

variable {chain chain₁ first first₁ second second₁ : Chain}

theorem symm (h : chain.Regrouped chain₁) : chain₁.Regrouped chain :=
  ⟨h.source_eq.symm, h.conditions.symm, h.joins.flip.imp fun _ _ hj => hj.symm,
    h.entered_eq.symm⟩

theorem joins_eq_nil_iff (h : chain.Regrouped chain₁) : chain.joins = [] ↔ chain₁.joins = [] := by
  rw [← List.length_eq_zero_iff, h.joins.length_eq, List.length_eq_zero_iff]

theorem opened (h : chain.Regrouped chain₁) (kind : JoinKind) :
    List.Forall₂ Join.Regrouped (chain.opened kind) (chain₁.opened kind) :=
  .cons ⟨rfl, h.source_eq, h.conditions⟩ h.joins

theorem settles (h : chain.Regrouped chain₁) {kind : JoinKind} {c : Condition}
    {visible : List String} {i : Nat} (hs : Join.Settles c visible (chain.opened kind) i) :
    Join.Settles c visible (chain₁.opened kind) i :=
  hs.congr (map_eq_map_of_forall₂ (fun _ _ hj => hj.source_eq) (h.opened kind))

theorem addConditions (h : chain.Regrouped chain₁) (role : Role) {cs cs₁ : List Condition}
    (hc : SameSpines cs cs₁) :
    (chain.addConditions role cs).Regrouped (chain₁.addConditions role cs₁) := by
  unfold Chain.addConditions
  by_cases hlast : role = .joined ∧ chain.joins ≠ []
  · rw [if_pos hlast, if_pos (hlast.imp_right (mt h.joins_eq_nil_iff.2)), ← h.joins.length_eq]
    refine ⟨h.source_eq, h.conditions, forall₂_modify (fun j j₁ hj => ?_) h.joins _, h.entered_eq⟩
    exact ⟨hj.kind_eq, hj.source_eq, hj.conditions.append hc⟩
  · rw [if_neg hlast, if_neg (mt (And.imp_right (mt h.joins_eq_nil_iff.1)) hlast)]
    exact ⟨h.source_eq, h.conditions.append hc, h.joins, h.entered_eq⟩

theorem restrict (h : chain.Regrouped chain₁) (role : Role) (c : Condition) :
    (chain.restrict role c).Regrouped (chain₁.restrict role c) := by
  rw [restrict_eq, restrict_eq]
  exact h.addConditions role (.refl [c])

theorem restrict_both (h : chain.Regrouped chain₁) (role : Role) (c : Condition) {d : Condition}
    (hd : spine d = [d]) : ((chain.restrict role c).restrict role d).Regrouped
      (chain₁.restrict role (.binary .and c d)) := by
  rw [restrict_eq, restrict_eq, restrict_eq, addConditions_addConditions]
  exact h.addConditions role (.conjoined c hd)

theorem follow (h : first.Regrouped first₁) (h₁ : second.Regrouped second₁) (kind : JoinKind)
    (i : Nat) (c : Condition) :
    (first.follow kind second i c).Regrouped (first₁.follow kind second₁ i c) := by
  refine ⟨h.source_eq, h.conditions, List.rel_append h.joins ?_, ?_⟩
  · exact forall₂_modify (fun _ _ hj => hj.receive i c) (h₁.opened kind) i
  · exact congrArg₂ (· ++ ·) h.entered_eq h₁.entered_eq

end Chain.Regrouped

/-- Statements that differ in how their conjuncts are grouped. -/
structure Query.Regrouped (q q₁ : Query) : Prop where
  columns_eq : q.columns = q₁.columns
  source_eq : q.source = q₁.source
  joins : List.Forall₂ Join.Regrouped q.joins q₁.joins
  filter : SameSpines q.filter q₁.filter

theorem Query.Regrouped.render_eq {q q₁ : Query} (h : q.Regrouped q₁) (style : Style) :
    q.render style = q₁.render style := by
  have hjoins : (q.joins.flatMap fun j => style.separator :: j.sql style) =
      q₁.joins.flatMap fun j => style.separator :: j.sql style := by
    rw [List.flatMap_def, List.flatMap_def, map_eq_map_of_forall₂ (fun j j₁ hj => ?_) h.joins]
    rw [hj.sql_eq]
  have hempty : q.filter.isEmpty = q₁.filter.isEmpty := by
    rw [Bool.eq_iff_iff, List.isEmpty_iff, List.isEmpty_iff, h.filter.eq_nil_iff]
  unfold render sql selectSql
  rw [h.columns_eq, h.source_eq, hjoins, hempty, h.filter.conjunctionSql_eq]

end RelationalSelect
