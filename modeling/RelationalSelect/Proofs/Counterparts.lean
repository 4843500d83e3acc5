import Mathlib.Logic.Function.Basic
import RelationalSelect.Proofs.FirstAliases

/-!
Namings in which each occurrence has a counterpart of the same name.

Names depend on the identities of occurrences and on their base tables. So two trees whose
occurrences correspond are named alike, in the same order and with the same error. The identities
by which their insides are known may differ: corresponding identities go by the same names as far as
corresponding occurrences cover them.
-/

set_option autoImplicit false

namespace RelationalSelect

def Event.rename (f : Identity → Identity) : Event → Event
  | .named id base name => .named (f id) base name
  | e => e

/-- A computation that does what another one does, under other identities. -/
inductive Logged.Follows {α β : Type} (f : Identity → Identity) (R : α → β → Prop) :
    Logged α → Logged β → Prop
  | ok (journal : List Event) {a : α} {b : β} (related : R a b) :
      Follows f R ⟨journal, .ok a⟩ ⟨journal.map (Event.rename f), .ok b⟩
  | error (journal : List Event) (e : Error) :
      Follows f R ⟨journal, .error e⟩ ⟨journal.map (Event.rename f), .error e⟩

namespace Logged.Follows

variable {α β γ δ : Type} {f : Identity → Identity} {R : α → β → Prop} {S : γ → δ → Prop}
  {x : Logged α} {y : Logged β}

theorem bind {k : α → Logged γ} {l : β → Logged δ} (h : Follows f R x y)
    (hk : ∀ a b, R a b → Follows f S (k a) (l b)) : Follows f S (x >>= k) (y >>= l) := by
  cases h with
  | error journal e => exact .error journal e
  | @ok journal a b related =>
    have hkl := hk a b related
    change Follows f S (Logged.bind _ k) (Logged.bind _ l)
    simp only [Logged.bind]
    generalize k a = z, l b = w at hkl
    cases hkl with
    | ok journal₁ related₁ =>
      simp only [← List.map_append]
      exact .ok _ related₁
    | error journal₁ e =>
      simp only [← List.map_append]
      exact .error _ e

theorem journal_eq (h : Follows f R x y) : y.journal = x.journal.map (Event.rename f) := by
  cases h <;> rfl

theorem outcome_cases (h : Follows f R x y) :
    (∃ e, x.outcome = .error e ∧ y.outcome = .error e) ∨
      ∃ a b, x.outcome = .ok a ∧ y.outcome = .ok b ∧ R a b := by
  cases h with
  | error _ e => exact .inl ⟨e, rfl, rfl⟩
  | ok _ related => exact .inr ⟨_, _, rfl, rfl, related⟩

theorem bind_outcome {k : α → Except Error γ} {l : β → Except Error γ} (h : Follows f R x y)
    (hkl : ∀ a b, R a b → k a = l b) : x.outcome >>= k = y.outcome >>= l := by
  cases h with
  | error => rfl
  | ok _ related => exact hkl _ _ related

theorem map_outcome {k : α → γ} {l : β → γ} (h : Follows f R x y) (hkl : ∀ a b, R a b → k a = l b) :
    x.outcome.map k = y.outcome.map l := by
  cases h with
  | error => rfl
  | ok _ related => exact congrArg Except.ok (hkl _ _ related)

end Logged.Follows

structure Occurrence.Counterpart (same : Identity → Identity → Prop) (o o₁ : Occurrence) :
    Prop where
  base_eq : o.base = o₁.base
  number_eq : o.number = o₁.number
  covered_iff : ∀ x y, same x y → (x ∈ o.covered ↔ y ∈ o₁.covered)

namespace Occurrence.Counterpart

variable {same : Identity → Identity → Prop} {o o₁ : Occurrence}

theorem name_eq (h : o.Counterpart same o₁) : o.name = o₁.name := by
  rw [name, name, h.base_eq, h.number_eq]

theorem contains_eq (h : o.Counterpart same o₁) {x y : Identity} (hxy : same x y) :
    o.covered.contains x = o₁.covered.contains y := by
  refine Bool.eq_iff_iff.2 ?_
  rw [List.contains_iff_mem, List.contains_iff_mem]
  exact h.covered_iff x y hxy

end Occurrence.Counterpart

/-- Relations that are named alike, one under an identity that stands for that of the other. -/
structure Relation.Counterpart (f : Identity → Identity) (same : Identity → Identity → Prop)
    (r r₁ : Relation) : Prop where
  id_eq : r₁.id = f r.id
  baseName_eq : r₁.baseName = r.baseName
  ids_iff : ∀ x y, same x y → (x ∈ r.ids ↔ y ∈ r₁.ids)

def View.Agrees (same : Identity → Identity → Prop) (view view₁ : View) : Prop :=
  ∀ x y, same x y → view₁ y = view x

namespace Naming

/-- Namings that list counterparts in the same order. -/
def Counterpart (f : Identity → Identity) (same : Identity → Identity → Prop)
    (names names₁ : Naming) : Prop :=
  List.Forall₂ (fun e e₁ => e₁.1 = f e.1 ∧ e.2.Counterpart same e₁.2) names.toList names₁.toList

namespace Counterpart

variable {f : Identity → Identity} {same : Identity → Identity → Prop} {names names₁ : Naming}

theorem values (h : Counterpart f same names names₁) :
    List.Forall₂ (Occurrence.Counterpart same) names.values names₁.values := by
  unfold Roster.values
  rw [List.forall₂_map_left_iff, List.forall₂_map_right_iff]
  exact h.imp fun _ _ he => he.2

theorem toStrings_eq (h : Counterpart f same names names₁) : names₁.toStrings = names.toStrings :=
  (map_eq_map_of_forall₂ (fun _ _ he => he.name_eq) h.values).symm

theorem lastNumber_eq (h : Counterpart f same names names₁) (base : String) :
    names₁.lastNumber base = names.lastNumber base := by
  have hnumbers : names.values.map (fun o => (o.base, o.number)) =
      names₁.values.map (fun o => (o.base, o.number)) :=
    map_eq_map_of_forall₂ (fun _ _ he => by rw [he.base_eq, he.number_eq]) h.values
  have hfold : ∀ names : Naming, names.lastNumber base =
      (names.values.map fun o => (o.base, o.number)).foldl
        (fun n e => if e.1 = base then e.2 else n) 0 := by
    intro names
    rw [List.foldl_map]
    rfl
  rw [hfold, hfold, hnumbers]

section Injective

variable (hf : Function.Injective f)
include hf

theorem get?_rel (h : Counterpart f same names names₁) (x : Identity) :
    Option.Rel (Occurrence.Counterpart same) (names.get? x) (names₁.get? (f x)) := by
  cases hx : names.get? x with
  | some o =>
    obtain ⟨e₁, hmem, hid, ho⟩ := exists_of_forall₂ h.flip (Roster.get?_eq_some_iff.1 hx)
    have hget : names₁.get? (f x) = some e₁.2 := by
      rw [Roster.get?_eq_some_iff, ← hid]
      exact hmem
    rw [hget]
    exact .some ho
  | none =>
    cases hy : names₁.get? (f x) with
    | none => exact .none
    | some o₁ =>
      obtain ⟨e, hmem, hid, -⟩ := exists_of_forall₂ h (Roster.get?_eq_some_iff.1 hy)
      obtain rfl : x = e.1 := hf hid
      rw [Roster.get?_eq_some_iff.2 hmem] at hx
      contradiction

theorem outside_eq (h : Counterpart f same names names₁) {x : Identity} (hx : same x (f x)) :
    names₁.outside (f x) = names.outside x := by
  have hfind := find?_rel (p := (·.covered.contains x)) (q := (·.covered.contains (f x)))
    (fun _ _ ho => ho.contains_eq hx) h.values
  have hget := h.get?_rel hf x
  unfold outside
  generalize names.get? x = a, names₁.get? (f x) = a₁ at hget
  cases hget with
  | some ho => exact congrArg some ho.name_eq.symm
  | none =>
    generalize names.values.find? (·.covered.contains x) = b,
      names₁.values.find? (·.covered.contains (f x)) = b₁ at hfind
    cases hfind with
    | some ho => exact congrArg some ho.name_eq.symm
    | none => rfl

theorem inside_eq (h : Counterpart f same names names₁) {view view₁ : View} {x y : Identity}
    (hxy : same x y) (hview : view₁ y = view x) (a : Identity) :
    names₁.inside (f a) view₁ y = names.inside a view x := by
  have hget := h.get?_rel hf a
  unfold inside
  generalize names.get? a = b, names₁.get? (f a) = b₁ at hget
  cases hget with
  | some ho => simp only [ho.contains_eq hxy, ho.name_eq, hview]
  | none => exact hview

theorem inside_agrees (h : Counterpart f same names names₁) {view view₁ : View}
    (hview : view.Agrees same view₁) (a : Identity) :
    (names.inside a view).Agrees same (names₁.inside (f a) view₁) :=
  fun x y hxy => h.inside_eq hf hxy (hview x y hxy) a

theorem add (h : Counterpart f same names names₁) {r r₁ : Relation}
    (hr : r.Counterpart f same r₁) :
    Logged.Follows f (Counterpart f same) (names.add r) (names₁.add r₁) := by
  have hget := h.get?_rel hf r.id
  unfold Naming.add
  simp only [Roster.contains_eq_isSome_get?, hr.id_eq, hr.baseName_eq, h.toStrings_eq,
    h.lastNumber_eq]
  cases hfree : names.get? r.id with
  | some o =>
    rw [hfree] at hget
    generalize names₁.get? (f r.id) = b₁ at hget
    cases hget with
    | some => exact .error [] _
  | none =>
    cases hfree₁ : names₁.get? (f r.id) with
    | some o₁ =>
      rw [hfree, hfree₁] at hget
      contradiction
    | none =>
      cases r.baseName with
      | error e => exact .error [] e
      | ok base =>
        refine .ok [_] ?_
        unfold Counterpart
        rw [Roster.toList_insert_of_get? hfree, Roster.toList_insert_of_get? hfree₁]
        exact List.rel_append h (.cons ⟨rfl, rfl, rfl, hr.ids_iff⟩ .nil)

theorem foldlM {rs rs₁ : List Relation} (hrs : List.Forall₂ (Relation.Counterpart f same) rs rs₁)
    (h : Counterpart f same names names₁) : Logged.Follows f (Counterpart f same)
      (rs.foldlM Naming.add names) (rs₁.foldlM Naming.add names₁) := by
  induction hrs generalizing names names₁ with
  | nil => exact .ok [] h
  | cons hr _ ih =>
    rw [List.foldlM_cons, List.foldlM_cons]
    exact (h.add hf hr).bind fun _ _ h₁ => ih h₁

end Injective

end Counterpart

theorem assign_counterpart {f : Identity → Identity} (hf : Function.Injective f)
    {same : Identity → Identity → Prop} {root root₁ : Relation}
    (h : List.Forall₂ (Relation.Counterpart f same) root.occurrences root₁.occurrences) :
    Logged.Follows f (Counterpart f same) (assign root) (assign root₁) := by
  unfold assign
  rw [Relation.forOccurrences_eq_foldlM, Relation.forOccurrences_eq_foldlM]
  have hempty : Counterpart f same Roster.empty Roster.empty := List.Forall₂.nil
  refine (hempty.foldlM hf h).bind fun names names₁ hnames => ?_
  rw [hnames.toStrings_eq]
  exact .ok [_] hnames

end Naming

end RelationalSelect
