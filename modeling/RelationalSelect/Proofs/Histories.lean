import Mathlib.Data.List.Forall2
import Mathlib.Data.List.Induction
import RelationalSelect.Roster

/-!
Maps that list their entries, and the insertions that they come of.

The keys stand in the order of their first insertions, each with the value of its last one. The
index knows every key and where it stands, so what a map answers is what its entries say. Maps are
compared by their entries in order: two maps that differ there may still give the same answers.
-/

set_option autoImplicit false

namespace RelationalSelect.Roster

variable {κ υ : Type}

theorem lookup_cons_eq [DecidableEq κ] (k : κ) (e : κ × υ) (l : List (κ × υ)) :
    (e :: l).lookup k = if k = e.1 then some e.2 else l.lookup k := by
  rw [List.lookup_cons]
  by_cases h : k = e.1
  · simp [h]
  · simp [h, beq_false_of_ne h]

variable [Ord κ]

theorem get?_eq_some_iff {m : Roster κ υ} {k : κ} {v : υ} :
    m.get? k = some v ↔ (k, v) ∈ m.toList := by
  constructor
  · intro h
    unfold get? at h
    split at h
    · next i hi =>
      obtain ⟨w, hw⟩ := entry_of_index hi
      simp only [hw, Option.map_some, Option.some.injEq] at h
      subst h
      exact List.mem_of_getElem? (by simpa [toList] using hw)
    · simp at h
  · intro h
    obtain ⟨i, hi⟩ := List.getElem?_of_mem h
    have he : m.entries[i]? = some (k, v) := by simpa [toList] using hi
    have hk : m.index[k]? = some i := (m.indexed k i).2 (by simp [he])
    simp [get?, hk, he]

theorem index_eq_none_iff {m : Roster κ υ} {k : κ} : m.index[k]? = none ↔ m.get? k = none := by
  unfold get?
  cases h : m.index[k]? with
  | none => simp
  | some i =>
    obtain ⟨v, hv⟩ := entry_of_index h
    simp [hv]

theorem get?_of_index {m : Roster κ υ} {k : κ} {i : Nat} (h : m.index[k]? = some i) :
    ∃ v, m.toList[i]? = some (k, v) ∧ m.get? k = some v := by
  obtain ⟨v, hv⟩ := entry_of_index h
  exact ⟨v, by simpa [toList] using hv, by simp [get?, h, hv]⟩

theorem mem_keys_iff {m : Roster κ υ} {k : κ} : k ∈ m.keys ↔ ∃ v, m.get? k = some v := by
  simp [keys, get?_eq_some_iff]

theorem get?_eq_lookup [DecidableEq κ] (m : Roster κ υ) (k : κ) :
    m.get? k = m.toList.lookup k := by
  apply Option.ext
  intro v
  rw [get?_eq_some_iff, List.lookup_eq_some_iff]
  constructor
  · intro h
    obtain ⟨front, back, hsplit⟩ := List.append_of_mem h
    refine ⟨front, back, hsplit, fun e he => ?_⟩
    have hdistinct : (m.toList.map Prod.fst).Nodup := m.nodup_keys
    rw [hsplit, List.map_append, List.map_cons, List.nodup_append] at hdistinct
    have hne := hdistinct.2.2 _ (List.mem_map_of_mem he) k List.mem_cons_self
    simpa using Ne.symm hne
  · rintro ⟨front, back, hsplit, -⟩
    simp [hsplit]

section Insertion

variable [Std.TransOrd κ]

theorem contains_iff {m : Roster κ υ} {k : κ} : m.contains k = true ↔ k ∈ m.keys := by
  rw [contains_eq_isSome_get?, Option.isSome_iff_exists, mem_keys_iff]

variable [Std.LawfulEqOrd κ]

theorem toList_insert_of_get? {m : Roster κ υ} {k : κ} (h : m.get? k = none) (v : υ) :
    (m.insert k v).toList = m.toList ++ [(k, v)] :=
  toList_insert_of_not_index v (index_eq_none_iff.2 h)

theorem values_insert_of_get? {m : Roster κ υ} {k : κ} (h : m.get? k = none) (v : υ) :
    (m.insert k v).values = m.values ++ [v] := by
  unfold values
  rw [toList_insert_of_get? h, List.map_append, List.map_singleton]

theorem keys_insert [DecidableEq κ] (m : Roster κ υ) (k : κ) (v : υ) :
    (m.insert k v).keys = if k ∈ m.keys then m.keys else m.keys ++ [k] := by
  cases h : m.index[k]? with
  | none =>
    have hnone := index_eq_none_iff.1 h
    have hnot : k ∉ m.keys := by simp [mem_keys_iff, hnone]
    rw [if_neg hnot]
    unfold keys
    rw [toList_insert_of_get? hnone, List.map_append, List.map_singleton]
  | some i =>
    obtain ⟨w, hw, hget⟩ := get?_of_index h
    rw [if_pos (mem_keys_iff.2 ⟨w, hget⟩)]
    obtain ⟨hi, hentry⟩ := List.getElem?_eq_some_iff.1 hw
    unfold keys
    rw [toList_insert_of_index v h, List.map_set]
    have hkey : k = (m.toList.map Prod.fst).get ⟨i, by simpa using hi⟩ := by simp [hentry]
    rw [hkey]
    exact List.set_getElem_self _

def ofInsertions (history : List (κ × υ)) : Roster κ υ :=
  history.foldl (fun m e => m.insert e.1 e.2) empty

theorem ofInsertions_concat (history : List (κ × υ)) (e : κ × υ) :
    ofInsertions (history ++ [e]) = (ofInsertions history).insert e.1 e.2 := by
  simp [ofInsertions]

variable [DecidableEq κ]

theorem keys_ofInsertions (history : List (κ × υ)) :
    (ofInsertions history).keys = (history.map Prod.fst).eraseDups := by
  induction history using List.reverseRec with
  | nil => rfl
  | append_singleton history e ih =>
    rw [ofInsertions_concat, keys_insert, ih, List.map_append, List.map_singleton,
      List.eraseDups_append]
    by_cases h : e.1 ∈ history.map Prod.fst
    · simp [List.removeAll, h]
    · simp [List.removeAll, h, List.eraseDups_cons]

theorem get?_ofInsertions (history : List (κ × υ)) (k : κ) :
    (ofInsertions history).get? k = history.reverse.lookup k := by
  induction history using List.reverseRec with
  | nil => exact get?_empty k
  | append_singleton history e ih =>
    rw [ofInsertions_concat, get?_insert, ih, List.reverse_append, List.reverse_singleton,
      List.singleton_append, lookup_cons_eq]
    simp only [eq_comm]

structure Records (history : List (κ × υ)) (m : Roster κ υ) : Prop where
  distinct : m.keys.Nodup
  /-- The keys stand in the order in which they first came. -/
  keys_eq : m.keys = (history.map Prod.fst).eraseDups
  /-- The value of a key is the one that it got last. -/
  last : ∀ k v, (k, v) ∈ m.toList ↔ history.reverse.lookup k = some v
  /-- The index sends a key to the position where it stands, and knows no other keys. -/
  index_iff : ∀ k i, m.index[k]? = some i ↔ ∃ h : i < m.toList.length, m.toList[i].1 = k
  /-- So the position that it gives is one of an entry, and the entry is the answer. -/
  inRange : ∀ k i, m.index[k]? = some i → ∃ h : i < m.toList.length,
    m.get? k = some m.toList[i].2
  get?_eq : ∀ k, m.get? k = m.toList.lookup k
  contains_iff : ∀ k, m.contains k = true ↔ k ∈ m.toList.map Prod.fst
  size_eq : m.size = m.toList.length

theorem records_ofInsertions (history : List (κ × υ)) :
    Records history (ofInsertions history) := by
  refine ⟨nodup_keys _, keys_ofInsertions history, fun k v => ?_, fun k i => ?_, fun k i h => ?_,
    get?_eq_lookup _, fun k => contains_iff, (length_toList _).symm⟩
  · rw [← get?_ofInsertions, get?_eq_some_iff]
  · rw [indexed, ← Array.getElem?_toList, Option.map_eq_some_iff]
    constructor
    · rintro ⟨e, he, hk⟩
      obtain ⟨hi, rfl⟩ := List.getElem?_eq_some_iff.1 he
      exact ⟨hi, hk⟩
    · rintro ⟨hi, hk⟩
      exact ⟨_, List.getElem?_eq_getElem hi, hk⟩
  · obtain ⟨v, hv, hget⟩ := get?_of_index h
    obtain ⟨hi, he⟩ := List.getElem?_eq_some_iff.1 hv
    exact ⟨hi, by rw [hget, he]⟩

end Insertion

section Comparison

variable [DecidableEq κ] [BEq υ]

theorem beq_iff {a b : Roster κ υ} : (a == b) = true ↔
    List.Forall₂ (fun e f => e.1 = f.1 ∧ (e.2 == f.2) = true) a.toList b.toList := by
  have hentries : (a == b) = (a.toList == b.toList) := (Array.beq_toList _ _).symm
  rw [hentries]
  generalize a.toList = l
  generalize b.toList = m
  induction l generalizing m with
  | nil => cases m <;> simp
  | cons e l ih =>
    cases m with
    | nil => simp
    | cons f m =>
      have hpair : (e == f) = (e.1 == f.1 && e.2 == f.2) := rfl
      simp [hpair, ih]

theorem get?_rel_of_beq {a b : Roster κ υ} (h : (a == b) = true) (k : κ) :
    Option.Rel (fun v w => (v == w) = true) (a.get? k) (b.get? k) := by
  have hentries := beq_iff.1 h
  rw [get?_eq_lookup, get?_eq_lookup]
  generalize a.toList = l at hentries
  generalize b.toList = m at hentries
  induction hentries with
  | nil => exact .none
  | cons hef _ ih =>
    rw [lookup_cons_eq, lookup_cons_eq, hef.1]
    split
    · exact .some hef.2
    · exact ih

theorem keys_eq_of_beq {a b : Roster κ υ} (h : (a == b) = true) : a.keys = b.keys := by
  have hentries : List.Forall₂ (fun e f => e.1 = f.1) a.toList b.toList :=
    (beq_iff.1 h).imp fun _ _ hef => hef.1
  have hkeys : List.Forall₂ Eq (a.toList.map Prod.fst) (b.toList.map Prod.fst) :=
    List.forall₂_map_left_iff.2 (List.forall₂_map_right_iff.2 hentries)
  rwa [List.forall₂_eq_eq_eq] at hkeys

theorem beq_iff_toList_eq [LawfulBEq υ] {a b : Roster κ υ} :
    (a == b) = true ↔ a.toList = b.toList := by
  rw [beq_iff, ← List.forall₂_eq_eq_eq]
  constructor
  · exact fun h => h.imp fun e f hef => Prod.ext hef.1 (eq_of_beq hef.2)
  · exact fun h => h.imp fun e f hef => by simp [hef]

variable [Std.TransOrd κ] [Std.LawfulEqOrd κ]

/-- Two keys that come in either order give the same answers, and different maps. -/
theorem alike_not_beq {k₁ k₂ : κ} (hne : k₁ ≠ k₂) (v w : υ) :
    (∀ k, (ofInsertions [(k₁, v), (k₂, w)]).get? k =
      (ofInsertions [(k₂, w), (k₁, v)]).get? k) ∧
    (ofInsertions [(k₁, v), (k₂, w)] == ofInsertions [(k₂, w), (k₁, v)]) = false := by
  constructor
  · intro k
    rw [get?_ofInsertions, get?_ofInsertions]
    simp only [List.reverse_cons, List.reverse_nil, List.nil_append, List.cons_append,
      lookup_cons_eq, List.lookup_nil]
    by_cases h : k = k₁
    · simp [h, hne]
    · simp [h]
  · rw [Bool.eq_false_iff]
    intro h
    have hkeys := keys_eq_of_beq h
    rw [keys_ofInsertions, keys_ofInsertions] at hkeys
    simp [List.eraseDups_cons, hne, Ne.symm hne] at hkeys

structure Compares (a b : Roster κ υ) : Prop where
  /-- They are equal if their entries are, one by one. -/
  beq_iff : (a == b) = true ↔
    List.Forall₂ (fun e f => e.1 = f.1 ∧ (e.2 == f.2) = true) a.toList b.toList
  beq_iff_toList : LawfulBEq υ → ((a == b) = true ↔ a.toList = b.toList)
  /-- Then they give the same answers. -/
  answers : (a == b) = true → ∀ k, Option.Rel (fun v w => (v == w) = true) (a.get? k) (b.get? k)

/-- Insertions make a map that lists its entries in the order in which their keys first came. Maps
are compared by these lists, and not by their answers. -/
theorem records_and_compares (first second : List (κ × υ)) :
    Records first (ofInsertions first) ∧ Compares (ofInsertions first) (ofInsertions second) ∧
    ∀ k₁ k₂ : κ, k₁ ≠ k₂ → ∀ v w : υ,
      (∀ k, (ofInsertions [(k₁, v), (k₂, w)]).get? k =
        (ofInsertions [(k₂, w), (k₁, v)]).get? k) ∧
      (ofInsertions [(k₁, v), (k₂, w)] == ofInsertions [(k₂, w), (k₁, v)]) = false :=
  ⟨records_ofInsertions first, ⟨beq_iff, fun _ => beq_iff_toList_eq, get?_rel_of_beq⟩,
    fun _ _ => alike_not_beq⟩

def revisions : List (Nat × String) := [(3, "c"), (1, "a"), (3, "z"), (2, "b"), (1, "y")]

theorem records_revisions : (ofInsertions revisions).toList = [(3, "z"), (1, "y"), (2, "b")] ∧
    Records revisions (ofInsertions revisions) ∧
    Compares (ofInsertions revisions) (ofInsertions revisions.reverse) ∧ (3 : Nat) ≠ 1 ∧
    (∀ k, (ofInsertions [(3, "c"), (1, "a")]).get? k =
      (ofInsertions [(1, "a"), (3, "c")]).get? k) ∧
    (ofInsertions [(3, "c"), (1, "a")] == ofInsertions [(1, "a"), (3, "c")]) = false := by
  obtain ⟨hrecords, hcompares, hdiffer⟩ := records_and_compares revisions revisions.reverse
  exact ⟨by decide, hrecords, hcompares, by decide, hdiffer 3 1 (by decide) "c" "a"⟩

end Comparison

end RelationalSelect.Roster
