import RelationalSelect.Proofs.Assignment
import RelationalSelect.Proofs.Places

set_option autoImplicit false

namespace RelationalSelect

theorem find?_rel {α β : Type} {R : α → β → Prop} {p : α → Bool} {q : β → Bool} {l₁ : List α}
    {l₂ : List β} (hpq : ∀ a b, R a b → p a = q b) (h : List.Forall₂ R l₁ l₂) :
    Option.Rel R (l₁.find? p) (l₂.find? q) := by
  induction h with
  | nil => exact .none
  | @cons a b l₁ l₂ hab _ ih =>
    rw [List.find?_cons, List.find?_cons, hpq a b hab]
    cases q b with
    | true => exact .some hab
    | false => exact ih

theorem exists_of_forall₂ {α β : Type} {R : α → β → Prop} {l : List α} {m : List β} {b : β}
    (h : List.Forall₂ R l m) (hb : b ∈ m) : ∃ a ∈ l, R a b := by
  obtain ⟨i, hi, hget⟩ := List.getElem_of_mem hb
  have hi₁ : i < l.length := by rw [h.length_eq]; exact hi
  have hr := h.get hi₁ hi
  simp only [List.get_eq_getElem, hget] at hr
  exact ⟨l[i], List.getElem_mem hi₁, hr⟩

theorem map_eq_map_of_forall₂ {α β γ : Type} {R : α → β → Prop} {f : α → γ} {g : β → γ}
    (hfg : ∀ a b, R a b → f a = g b) {l : List α} {m : List β} (h : List.Forall₂ R l m) :
    l.map f = m.map g := by
  induction h with
  | nil => rfl
  | cons hab _ ih => rw [List.map_cons, List.map_cons, hfg _ _ hab, ih]

namespace Naming

def nameOf (names : Naming) (id : Identity) : Option String := (names.get? id).map Occurrence.name

/-- Whether an alias is an occurrence that has the relation inside it. -/
def shows (names : Naming) (x : Identity) (a : Relation) : Bool :=
  match names.get? a.id with
  | some o => o.covered.contains x
  | none => false

/-- The names inside aliases, the innermost of them first. -/
def through (names : Naming) (around : List Relation) (view : View) : View :=
  around.foldr (fun a view => names.inside a.id view) view

theorem inside_eq (names : Naming) (a : Relation) (view : View) (x : Identity) :
    names.inside a.id view x = if names.shows x a then names.nameOf a.id else view x := by
  unfold inside shows nameOf
  cases names.get? a.id with
  | none => simp
  | some o => simp

theorem through_append (names : Naming) (front : List Relation) (a : Relation) (view : View) :
    names.through (front ++ [a]) view = names.through front (names.inside a.id view) := by
  simp [through]

theorem through_eq (names : Naming) (around : List Relation) (view : View) (x : Identity) :
    names.through around view x = match around.find? (names.shows x) with
      | some a => names.nameOf a.id
      | none => view x := by
  induction around with
  | nil => rfl
  | cons a around ih =>
    change names.inside a.id (names.through around view) x = _
    rw [inside_eq, List.find?_cons]
    cases names.shows x a with
    | true => rfl
    | false => simpa using ih

theorem mem_toStrings {names : Naming} {x : Identity} {t : String} (h : names.nameOf x = some t) :
    t ∈ names.toStrings := by
  obtain ⟨o, ho, rfl⟩ := Option.map_eq_some_iff.1 h
  exact List.mem_map_of_mem (List.mem_map_of_mem (Roster.get?_eq_some_iff.1 ho))

theorem mem_toStrings_of_outside {names : Naming} {x : Identity} {t : String}
    (h : names.outside x = some t) : t ∈ names.toStrings := by
  obtain ⟨o, ho, rfl⟩ := Option.map_eq_some_iff.1 h
  refine List.mem_map_of_mem ?_
  rcases Option.or_eq_some_iff.1 ho with ho | ⟨-, ho⟩
  · exact List.mem_map_of_mem (Roster.get?_eq_some_iff.1 ho)
  · exact List.mem_of_find?_eq_some ho

namespace Names

variable {names : Naming} {rs : List Relation}

theorem get?_of_mem (hn : Names names rs) {r : Relation} (hr : r ∈ rs) :
    ∃ o, names.get? r.id = some o ∧ Entry r (r.id, o) := by
  obtain ⟨i, hi⟩ := List.getElem?_of_mem hr
  have hlt := List.getElem?_eq_some_iff.1 hi
  obtain ⟨hi, hget⟩ := hlt
  have hi₁ : i < names.toList.length := by rw [← hn.listed.length_eq]; exact hi
  have he := hn.listed.get hi hi₁
  simp only [List.get_eq_getElem, hget] at he
  refine ⟨names.toList[i].2, Roster.get?_eq_some_iff.2 ?_, rfl, he.base_eq, he.covered_eq⟩
  rw [← he.id_eq]
  exact List.getElem_mem hi₁

theorem mem_of_get? (hn : Names names rs) {x : Identity} {o : Occurrence}
    (h : names.get? x = some o) : ∃ r ∈ rs, Entry r (x, o) :=
  exists_of_forall₂ hn.listed (Roster.get?_eq_some_iff.1 h)

theorem exists_nameOf (hn : Names names rs) {r : Relation} (hr : r ∈ rs) :
    ∃ t, names.nameOf r.id = some t := by
  obtain ⟨o, ho, -⟩ := hn.get?_of_mem hr
  exact ⟨o.name, by simp [nameOf, ho]⟩

theorem mem_of_nameOf (hn : Names names rs) {x : Identity} {t : String}
    (h : names.nameOf x = some t) : ∃ r ∈ rs, r.id = x := by
  obtain ⟨o, ho, -⟩ := Option.map_eq_some_iff.1 h
  obtain ⟨r, hr, he⟩ := hn.mem_of_get? ho
  exact ⟨r, hr, he.id_eq.symm⟩

theorem map_id (hn : Names names rs) : rs.map Relation.id = names.keys :=
  map_eq_map_of_forall₂ (fun _ _ he => he.id_eq.symm) hn.listed

theorem ids_nodup (hn : Names names rs) : (rs.map Relation.id).Nodup :=
  hn.map_id ▸ names.nodup_keys

theorem eq_of_id_eq (hn : Names names rs) {r s : Relation} (hr : r ∈ rs) (hs : s ∈ rs)
    (h : r.id = s.id) : r = s := List.inj_on_of_nodup_map hn.ids_nodup hr hs h

theorem nameOf_inj (hn : Names names rs) {x y : Identity} {t : String}
    (hx : names.nameOf x = some t) (hy : names.nameOf y = some t) : x = y := by
  obtain ⟨o, ho, hot⟩ := Option.map_eq_some_iff.1 hx
  obtain ⟨u, hu, hut⟩ := Option.map_eq_some_iff.1 hy
  have hd := hn.distinct
  unfold toStrings Roster.values at hd
  rw [List.map_map] at hd
  have he := List.inj_on_of_nodup_map hd (Roster.get?_eq_some_iff.1 ho)
    (Roster.get?_eq_some_iff.1 hu) (hot.trans hut.symm)
  exact congrArg Prod.fst he

theorem listed_nameOf (hn : Names names rs) :
    List.Forall₂ (fun r e => Entry r e ∧ names.nameOf r.id = some e.2.name) rs names.toList := by
  refine List.forall₂_iff_get.2 ⟨hn.listed.length_eq, fun i hi hi₁ => ?_⟩
  have he := hn.listed.get hi hi₁
  have hm : (rs[i].id, names.toList[i].2) ∈ names.toList := he.id_eq ▸ List.getElem_mem hi₁
  exact ⟨he, by simp [nameOf, Roster.get?_eq_some_iff.2 hm]⟩

theorem toStrings_eq (hn : Names names rs) :
    List.Forall₂ (fun r t => names.nameOf r.id = some t) rs names.toStrings := by
  unfold toStrings Roster.values
  rw [List.map_map, List.forall₂_map_right_iff]
  exact hn.listed_nameOf.imp fun _ _ h => h.2

theorem shows_iff (hn : Names names rs) {x : Identity} {a : Relation} :
    names.shows x a = true ↔ ∃ o ∈ rs, o.id = a.id ∧ x ∈ o.ids := by
  unfold shows
  constructor
  · intro h
    cases hg : names.get? a.id with
    | none => simp [hg] at h
    | some o =>
      obtain ⟨r, hr, he⟩ := hn.mem_of_get? hg
      have hc : o.covered = r.ids := he.covered_eq
      exact ⟨r, hr, he.id_eq.symm, by simpa [hg, hc] using h⟩
  · rintro ⟨r, hr, hid, hx⟩
    obtain ⟨o, ho, he⟩ := hn.get?_of_mem hr
    have hc : o.covered = r.ids := he.covered_eq
    simp [← hid, ho, hc, hx]

theorem outside_of_mem (hn : Names names rs) {r : Relation} (hr : r ∈ rs) :
    names.outside r.id = names.nameOf r.id := by
  obtain ⟨o, ho, -⟩ := hn.get?_of_mem hr
  simp [outside, nameOf, ho]

theorem outside_eq {root : Relation} (hn : Names names root.occurrences) (x : Identity) :
    names.outside x = (root.carrier x).bind fun o => names.nameOf o.id := by
  have hrel := find?_rel (p := (·.contains x)) (q := fun e => e.2.covered.contains x)
    (fun r e he => by rw [he.covered_eq]; exact Bool.eq_iff_iff.2 (by simp [Relation.contains_iff]))
    hn.listed
  unfold outside Relation.carrier
  cases hg : names.get? x with
  | some o =>
    obtain ⟨r, hr, he⟩ := hn.mem_of_get? hg
    have hrx : r.id = x := he.id_eq.symm
    obtain ⟨s, hs⟩ := Option.isSome_iff_exists.1 (List.find?_isSome.2 ⟨r, hr, by simp [hrx]⟩ :
      (root.occurrences.find? (·.id == x)).isSome)
    have hsx : s.id = x := by simpa using List.find?_some hs
    simp [hs, nameOf, hsx, hg]
  | none =>
    have hf : root.occurrences.find? (·.id == x) = none := by
      refine List.find?_eq_none.2 fun r hr hid => ?_
      obtain ⟨o, ho, -⟩ := hn.get?_of_mem hr
      have hid : r.id = x := by simpa using hid
      rw [hid, hg] at ho
      contradiction
    rw [hf, Option.none_or, Option.none_or]
    unfold Roster.values
    rw [List.find?_map, Function.comp_def]
    cases hl : names.toList.find? fun e => e.2.covered.contains x with
    | none =>
      rw [hl] at hrel
      generalize root.occurrences.find? (Relation.contains x) = found at *
      cases hrel
      rfl
    | some e =>
      have hm := Roster.get?_eq_some_iff.2 (List.mem_of_find?_eq_some hl)
      rw [hl] at hrel
      generalize root.occurrences.find? (Relation.contains x) = found at *
      cases hrel with
      | some he => simp [nameOf, ← he.id_eq, hm]

end Names

end Naming

end RelationalSelect
