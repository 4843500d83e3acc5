import RelationalSelect.Proofs.Alike
import RelationalSelect.Proofs.Counterparts

set_option autoImplicit false

namespace RelationalSelect

def Attribute.rename (f : Identity → Identity) (x : Attribute) : Attribute := ⟨f x.owner, x.name⟩

namespace Relation

def rename (f : Identity → Identity) : Relation → Relation
  | .table id name columns => .table (f id) name columns
  | .aliased id inner => .aliased (f id) (inner.rename f)
  | .selection id inner predicate =>
      .selection (f id) (inner.rename f) (predicate.map (Attribute.rename f))
  | .join id kind left right predicate =>
      .join (f id) kind (left.rename f) (right.rename f) (predicate.map (Attribute.rename f))

variable (f : Identity → Identity) (r : Relation)

theorem id_rename : (r.rename f).id = f r.id := by cases r <;> rfl

theorem ids_rename : (r.rename f).ids = r.ids.map f := by
  induction r with
  | table => rfl
  | aliased _ _ ih | selection _ _ _ ih => simp [rename, ids, ih]
  | join _ _ _ _ _ ihl ihr => simp [rename, ids, ihl, ihr]

theorem baseName_rename : (r.rename f).baseName = r.baseName := by
  induction r with
  | table | join => rfl
  | aliased _ _ ih | selection _ _ _ ih => exact ih

theorem occurrences_rename : (r.rename f).occurrences = r.occurrences.map (rename f) := by
  induction r with
  | table | aliased => rfl
  | selection _ _ _ ih => exact ih
  | join _ _ _ _ _ ihl ihr => simp [rename, occurrences, ihl, ihr]

theorem attributes_rename : (r.rename f).attributes = r.attributes.map (Attribute.rename f) := by
  induction r with
  | table => simp [rename, attributes, Attribute.rename]
  | aliased _ _ ih => simp [rename, attributes, ih, Attribute.rename]
  | selection _ _ _ ih => exact ih
  | join _ _ _ _ _ ihl ihr => simp [rename, attributes, ihl, ihr]

end Relation

namespace Naming

theorem assign_rename {f : Identity → Identity} (hf : Function.Injective f) (root : Relation) :
    Logged.Follows f (Counterpart f fun x y => y = f x) (assign root)
      (assign (root.rename f)) := by
  refine assign_counterpart hf ?_
  rw [Relation.occurrences_rename, List.forall₂_map_right_iff]
  refine List.forall₂_same.2 fun o _ => ⟨o.id_rename f, o.baseName_rename f, ?_⟩
  rintro x y rfl
  rw [Relation.ids_rename, List.mem_map_of_injective hf]

end Naming

namespace View

variable {f : Identity → Identity} {view view₁ : View} (hview : ∀ x, view₁ (f x) = view x)
include hview

theorem column_rename (x : Attribute) : view₁.column (x.rename f) = view.column x :=
  column_congr (hview x.owner) rfl

theorem condition_rename (p : Predicate) :
    view.condition p = view₁.condition (p.map (Attribute.rename f)) :=
  condition_map fun x _ => (column_rename hview x).symm

end View

namespace Chain

theorem alike_rename {f : Identity → Identity} (hf : Function.Injective f) {names names₁ : Naming}
    (h : Naming.Counterpart f (fun x y => y = f x) names names₁) {view view₁ : View}
    (hview : ∀ x, view₁ (f x) = view x) (r : Relation) :
    Alike names names₁ view view₁ r (r.rename f) := by
  induction r generalizing view view₁ with
  | table => exact .table (hview _).symm
  | aliased id inner ih =>
    exact .aliased (hview id).symm (ih fun x => h.inside_eq hf rfl (hview x) id)
  | selection _ _ p ih => exact .selection (ih hview) (View.condition_rename hview p)
  | join _ _ _ _ p ihl ihr => exact .join (ihl hview) (ihr hview) (View.condition_rename hview p)

end Chain

namespace Query

def compileUnder (names : Naming) (view : View) (root : Relation) : Except Error Query := do
  let chain ← (Chain.ofRelation names root view .leading []).outcome
  let columns ← root.attributes.mapM view.column
  return ⟨columns, chain.source, chain.joins, chain.conditions⟩

/-- Compilation that reads the names outside all aliases off notes, taken in some order. -/
def compileNoted (order : Relation → List Identity) (root : Relation) : Except Error Query := do
  let names ← (Naming.assign root).outcome
  compileUnder names (names.outsideNoted (.ofOccurrences order root.occurrences)) root

theorem compile_eq (root : Relation) : compile root =
    (Naming.assign root).outcome >>= fun names => compileUnder names names.outside root := by
  simp only [compile, compileLogged, compileUnder, Logged.liftM_eq, Logged.outcome_bind,
    Logged.outcome_ofExcept, Logged.outcome_record, Logged.outcome_pure]
  rfl

theorem compileNoted_eq {order : Relation → List Identity} {root : Relation}
    (enumerates : root.Enumerates order) : compileNoted order root = compile root := by
  rw [compile_eq, compileNoted]
  cases hn : (Naming.assign root).outcome with
  | error e => rfl
  | ok names =>
    have hview := (Naming.names_of_assign hn).outsideNoted_eq enumerates
    exact congrArg (compileUnder names · root) hview

theorem compileUnder_rename {f : Identity → Identity} (hf : Function.Injective f)
    {names names₁ : Naming} (h : Naming.Counterpart f (fun x y => y = f x) names names₁)
    (root : Relation) : compileUnder names names.outside root =
      compileUnder names₁ names₁.outside (root.rename f) := by
  have hview : ∀ x, names₁.outside (f x) = names.outside x := fun _ => h.outside_eq hf rfl
  unfold compileUnder
  rw [Chain.ofRelation_eq_of_alike (Chain.alike_rename hf h hview root), Relation.attributes_rename,
    View.columns_map fun x _ => (View.column_rename hview x).symm]

/-- Under other identities a tree has the same statement or error and the same names, also as far
as names were given before an error. The order in which the insides of aliases are gone through
does not matter either. -/
theorem compile_rename {f : Identity → Identity} (hf : Function.Injective f) (root : Relation) :
    compile (root.rename f) = compile root ∧
      (Naming.assign (root.rename f)).outcome.map Naming.toStrings =
        (Naming.assign root).outcome.map Naming.toStrings ∧
      (Naming.assign (root.rename f)).journal =
        (Naming.assign root).journal.map (Event.rename f) ∧
      ∀ order, (root.rename f).Enumerates order →
        compileNoted order (root.rename f) = compile root := by
  have hassign := Naming.assign_rename hf root
  have hcompile : compile (root.rename f) = compile root := by
    rw [compile_eq, compile_eq]
    exact (hassign.bind_outcome fun _ _ h => compileUnder_rename hf h root).symm
  have hstrings : (Naming.assign (root.rename f)).outcome.map Naming.toStrings =
      (Naming.assign root).outcome.map Naming.toStrings :=
    (hassign.map_outcome fun _ _ h => h.toStrings_eq.symm).symm
  refine ⟨hcompile, hstrings, hassign.journal_eq, fun order enumerates => ?_⟩
  rw [compileNoted_eq enumerates, hcompile]

/-- Two aliases of one table, of which a condition means the first by naming the table. -/
def rivals : Relation :=
  let users := Relation.table ⟨0⟩ "users" ["id"]
  let first := Relation.aliased ⟨1⟩ users
  let kept := Relation.selection ⟨2⟩ users
    (.binary .lt (.ref ⟨⟨0⟩, "id"⟩) (.literal (.integer 9)))
  .join ⟨4⟩ .inner first (.aliased ⟨3⟩ kept)
    (.binary .lt (.ref ⟨⟨0⟩, "id"⟩) (.ref ⟨⟨3⟩, "id"⟩))

def rivalsQuery : Query where
  columns := [⟨"users", "id"⟩, ⟨"users_2", "id"⟩]
  source := ⟨"users", none⟩
  joins := [⟨.inner, ⟨"users", some "users_2"⟩,
    [.binary .lt (.ref ⟨"users", "id"⟩) (.ref ⟨"users_2", "id"⟩),
      .binary .lt (.ref ⟨"users_2", "id"⟩) (.literal (.integer 9))]⟩]
  filter := []

def mirrored (x : Identity) : Identity := if x.index ≤ 4 then ⟨4 - x.index⟩ else x

theorem mirrored_involutive : Function.Involutive mirrored := by
  rintro ⟨a⟩
  unfold mirrored
  by_cases h : a ≤ 4 <;> simp [h]
  omega

theorem compile_mirrored : Function.Injective mirrored ∧
    compile (rivals.rename mirrored) = compile rivals ∧
    (Naming.assign (rivals.rename mirrored)).outcome.map Naming.toStrings =
      (Naming.assign rivals).outcome.map Naming.toStrings ∧
    (Naming.assign (rivals.rename mirrored)).journal =
      (Naming.assign rivals).journal.map (Event.rename mirrored) ∧
    compileNoted (fun o => o.members.reverse) (rivals.rename mirrored) = compile rivals ∧
    compile rivals = .ok rivalsQuery := by
  have hinjective := mirrored_involutive.injective
  obtain ⟨hcompile, hstrings, hjournal, hnoted⟩ := compile_rename hinjective rivals
  have henumerates := Relation.enumerates_reverse (rivals.rename mirrored)
  exact ⟨hinjective, hcompile, hstrings, hjournal, hnoted _ henumerates, by rfl⟩

end Query

end RelationalSelect
