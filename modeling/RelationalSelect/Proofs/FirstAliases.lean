import Mathlib.Data.List.Find
import RelationalSelect.Proofs.Views

set_option autoImplicit false

namespace RelationalSelect

namespace Relation

def members : Relation → List Identity
  | .aliased _ inner => inner.ids
  | _ => []

/-- Some order in which to go through the inside of each alias of FROM. -/
def Enumerates (order : Relation → List Identity) (root : Relation) : Prop :=
  ∀ o ∈ root.occurrences, ∀ x, x ∈ order o ↔ x ∈ o.members

theorem enumerates_reverse (root : Relation) : Enumerates (fun o => o.members.reverse) root :=
  fun _ _ _ => List.mem_reverse

theorem mem_ids_of_occurrence {r o : Relation} (h : o ∈ r.occurrences) (x : Identity) :
    x ∈ o.ids ↔ x = o.id ∨ x ∈ o.members := by
  rcases occurrence_cases h with ⟨_, _, _, rfl⟩ | ⟨_, _, rfl⟩ <;> simp [ids, id, members]

end Relation

abbrev Notes := Roster Identity Identity

namespace Notes

def note (a : Identity) (notes : Notes) (x : Identity) : Notes :=
  if notes.contains x then notes else notes.insert x a

def ofOccurrences (order : Relation → List Identity) (rs : List Relation) : Notes :=
  rs.foldl (fun notes o => (order o).foldl (note o.id) notes) Roster.empty

theorem get?_note (a : Identity) (notes : Notes) (x y : Identity) :
    (note a notes x).get? y = (notes.get? y).or (if x = y then some a else none) := by
  unfold note
  rw [Roster.contains_eq_isSome_get?]
  by_cases hxy : x = y
  · subst hxy
    cases hx : notes.get? x with
    | some b => simp [hx]
    | none => simp [Roster.get?_insert]
  · split <;> simp [Roster.get?_insert, hxy]

theorem get?_foldl_note (a : Identity) (l : List Identity) (notes : Notes) (y : Identity) :
    (l.foldl (note a) notes).get? y = (notes.get? y).or (if y ∈ l then some a else none) := by
  induction l generalizing notes with
  | nil => simp
  | cons x l ih =>
    rw [List.foldl_cons, ih, get?_note, Option.or_assoc]
    by_cases hxy : x = y
    · simp [hxy]
    · have hyx : y ≠ x := fun h => hxy h.symm
      simp [hxy, hyx]

theorem get?_ofOccurrences (order : Relation → List Identity) (rs : List Relation)
    (y : Identity) : (ofOccurrences order rs).get? y =
      (rs.find? fun o => (order o).contains y).map Relation.id := by
  have hfold : ∀ notes : Notes,
      (rs.foldl (fun notes o => (order o).foldl (note o.id) notes) notes).get? y =
        (notes.get? y).or ((rs.find? fun o => (order o).contains y).map Relation.id) := by
    induction rs with
    | nil => simp
    | cons o rs ih =>
      intro notes
      rw [List.foldl_cons, ih, get?_foldl_note, Option.or_assoc, List.find?_cons]
      by_cases hy : y ∈ order o
      · simp [hy]
      · simp [hy]
  have hempty := hfold Roster.empty
  rwa [Roster.get?_empty, Option.none_or] at hempty

end Notes

namespace Naming

/-- The names outside all aliases, read off the notes: an occurrence goes by its own name, and all
else by the name of the alias noted for it. -/
def outsideNoted (names : Naming) (notes : Notes) : View := fun x =>
  ((names.get? x).or ((notes.get? x).bind names.get?)).map Occurrence.name

theorem Names.outsideNoted_eq {names : Naming} {root : Relation}
    (hn : names.Names root.occurrences) {order : Relation → List Identity}
    (enumerates : root.Enumerates order) :
    names.outsideNoted (.ofOccurrences order root.occurrences) = names.outside := by
  funext x
  cases hx : names.get? x with
  | some o => simp [outsideNoted, outside, hx]
  | none =>
    have hnot : ∀ o ∈ root.occurrences, x ≠ o.id := by
      rintro o ho rfl
      obtain ⟨e, he, -⟩ := hn.get?_of_mem ho
      rw [hx] at he
      contradiction
    have hexact : root.occurrences.find? (·.id == x) = none := by
      refine List.find?_eq_none.2 fun o ho => ?_
      simpa using (hnot o ho).symm
    -- outside itself an occurrence contains exactly what its order lists
    have hfind : root.occurrences.find? (fun o => (order o).contains x) =
        root.occurrences.find? (Relation.contains x) := by
      refine List.find?_congr fun o ho => Bool.eq_iff_iff.2 ?_
      rw [List.contains_iff_mem, Relation.contains_iff, enumerates o ho,
        Relation.mem_ids_of_occurrence ho]
      simp [hnot o ho]
    have hcarrier : root.carrier x = root.occurrences.find? (Relation.contains x) := by
      rw [Relation.carrier, hexact, Option.none_or]
    rw [hn.outside_eq x, hcarrier, ← hfind]
    unfold outsideNoted
    rw [hx, Option.none_or, Notes.get?_ofOccurrences]
    cases root.occurrences.find? (fun o => (order o).contains x) with
    | none => rfl
    | some o => rfl

end Naming

end RelationalSelect
