import RelationalSelect.Proofs.Assignment
import RelationalSelect.Query.Compile

set_option autoImplicit false

namespace RelationalSelect

theorem mapM_congr_of_mem {α β ε : Type} {f g : α → Except ε β} {l : List α}
    (h : ∀ a ∈ l, f a = g a) : l.mapM f = l.mapM g := by
  induction l with
  | nil => rfl
  | cons a l ih =>
    rw [List.mapM_cons, List.mapM_cons, h a List.mem_cons_self,
      ih fun b hb => h b (List.mem_cons_of_mem _ hb)]

namespace Expr

variable {α β γ : Type}

def map (f : α → β) : Expr α → Expr β
  | .ref a => .ref (f a)
  | .literal v => .literal v
  | .binary op l r => .binary op (l.map f) (r.map f)

theorem refs_map (f : α → β) (p : Expr α) : (p.map f).refs = p.refs.map f := by
  induction p with
  | ref | literal => rfl
  | binary _ _ _ ihl ihr => simp [map, refs, ihl, ihr]

theorem mapM_map {m : Type → Type} [Monad m] [LawfulMonad m] (f : β → m γ) (g : α → β)
    (p : Expr α) : (p.map g).mapM f = p.mapM fun a => f (g a) := by
  induction p with
  | ref | literal => simp [map, mapM]
  | binary _ _ _ ihl ihr => simp [map, mapM, ihl, ihr]

theorem mapM_congr {m : Type → Type} [Monad m] {f g : α → m β} {p : Expr α}
    (h : ∀ a ∈ p.refs, f a = g a) : p.mapM f = p.mapM g := by
  induction p with
  | ref a => simp [mapM, h a (List.mem_singleton_self a)]
  | literal => rfl
  | binary _ _ _ ihl ihr =>
    have hl := ihl fun a ha => h a (List.mem_append_left _ ha)
    have hr := ihr fun a ha => h a (List.mem_append_right _ ha)
    simp [mapM, hl, hr]

end Expr

theorem Logged.bind_congr {α β : Type} {x : Logged α} {f g : α → Logged β}
    (h : ∀ a, x.outcome = .ok a → f a = g a) : x >>= f = x >>= g := by
  change Logged.bind x f = Logged.bind x g
  unfold Logged.bind
  cases hx : x.outcome with
  | error e => rfl
  | ok a => simp only [h a hx]

namespace View

theorem display_congr {view view₁ : View} {id id₁ : Identity} (h : view id = view₁ id₁) :
    view.display id = view₁.display id₁ := by
  unfold display
  rw [h]

theorem column_congr {view view₁ : View} {x y : Attribute} (h : view x.owner = view₁ y.owner)
    (name : x.name = y.name) : view.column x = view₁.column y := by
  unfold column
  rw [h, name]

theorem condition_map {view view₁ : View} {ρ : Attribute → Attribute} {p : Predicate}
    (h : ∀ x ∈ p.refs, view.column x = view₁.column (ρ x)) :
    view.condition p = view₁.condition (p.map ρ) := by
  unfold condition
  rw [Expr.mapM_map]
  exact Expr.mapM_congr h

theorem condition_congr {view view₁ : View} {p : Predicate}
    (h : ∀ x ∈ p.refs, view x.owner = view₁ x.owner) : view.condition p = view₁.condition p :=
  Expr.mapM_congr fun x hx => column_congr (h x hx) rfl

theorem columns_map {view view₁ : View} {ρ : Attribute → Attribute} {xs : List Attribute}
    (h : ∀ x ∈ xs, view.column x = view₁.column (ρ x)) :
    xs.mapM view.column = (xs.map ρ).mapM view₁.column := by
  rw [List.mapM_map]
  exact mapM_congr_of_mem h

end View

namespace Chain

/-- Two trees of one shape whose tables and aliases go by the same names, and whose predicates
become the same conditions or are refused alike. -/
inductive Alike (names names₁ : Naming) : View → View → Relation → Relation → Prop
  | table {view view₁ : View} {id id₁ : Identity} {name : String} {columns columns₁ : List String}
      (named : view id = view₁ id₁) :
      Alike names names₁ view view₁ (.table id name columns) (.table id₁ name columns₁)
  | aliased {view view₁ : View} {id id₁ : Identity} {inner inner₁ : Relation}
      (named : view id = view₁ id₁)
      (alike : Alike names names₁ (names.inside id view) (names₁.inside id₁ view₁) inner inner₁) :
      Alike names names₁ view view₁ (.aliased id inner) (.aliased id₁ inner₁)
  | selection {view view₁ : View} {id id₁ : Identity} {inner inner₁ : Relation}
      {predicate predicate₁ : Predicate} (alike : Alike names names₁ view view₁ inner inner₁)
      (compiled : view.condition predicate = view₁.condition predicate₁) :
      Alike names names₁ view view₁ (.selection id inner predicate)
        (.selection id₁ inner₁ predicate₁)
  | join {view view₁ : View} {id id₁ : Identity} {kind : JoinKind}
      {left right left₁ right₁ : Relation} {predicate predicate₁ : Predicate}
      (alikeLeft : Alike names names₁ view view₁ left left₁)
      (alikeRight : Alike names names₁ view view₁ right right₁)
      (compiled : view.condition predicate = view₁.condition predicate₁) :
      Alike names names₁ view view₁ (.join id kind left right predicate)
        (.join id₁ kind left₁ right₁ predicate₁)

variable {names names₁ : Naming} {view view₁ : View} {r r₁ : Relation}

theorem Alike.refl (names : Naming) (view : View) (r : Relation) :
    Alike names names view view r r := by
  induction r generalizing view with
  | table => exact .table rfl
  | aliased _ _ ih => exact .aliased rfl (ih _)
  | selection _ _ _ ih => exact .selection (ih view) rfl
  | join _ _ _ _ _ ihl ihr => exact .join (ihl view) (ihr view) rfl

theorem ofRelation_eq_of_alike (h : Alike names names₁ view view₁ r r₁) (role : Role)
    (before : List String) :
    ofRelation names r view role before = ofRelation names₁ r₁ view₁ role before := by
  induction h generalizing role before with
  | table named => simp only [ofRelation, View.display_congr named]
  | aliased named _ ih => simp only [ofRelation, View.display_congr named, ih]
  | selection _ compiled ih => simp only [ofRelation, compiled, ih]
  | join _ _ compiled ihl ihr => simp only [ofRelation, compiled, ihl, ihr]

end Chain

namespace Query

theorem compileLogged_eq_of_alike {root root₁ : Relation}
    (assigned : Naming.assign root = Naming.assign root₁)
    (alike : ∀ names, (Naming.assign root).outcome = .ok names →
      Chain.Alike names names names.outside names.outside root root₁)
    (columns : root.attributes = root₁.attributes) :
    compileLogged root = compileLogged root₁ := by
  unfold compileLogged
  rw [← assigned, ← columns]
  refine Logged.bind_congr fun names hn => ?_
  rw [Chain.ofRelation_eq_of_alike (alike names hn)]

end Query

end RelationalSelect
