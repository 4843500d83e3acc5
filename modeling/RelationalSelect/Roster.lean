import Std.Data.TreeMap.Lemmas
import RelationalSelect.Text.Quoted

/-!
Maps that list their entries in the order in which the keys first came.

The entries stand in an array, and a tree gives the position of every key. The two are tied
together by one invariant, `indexed`: the tree sends a key to a position exactly when that key
stands there. Main statements: `nodup_keys`, `get?_insert`, and what an insertion does to the
list of entries (`toList_insert_of_index`, `toList_insert_of_not_index`).
-/

set_option autoImplicit false

namespace RelationalSelect

structure Roster (κ υ : Type) [Ord κ] where
  entries : Array (κ × υ)
  index : Std.TreeMap κ Nat
  indexed : ∀ (k : κ) (i : Nat), index[k]? = some i ↔ (entries[i]?).map Prod.fst = some k

namespace Roster

variable {κ υ : Type} [Ord κ]

instance [BEq κ] [BEq υ] : BEq (Roster κ υ) := ⟨fun a b => a.entries == b.entries⟩

def toList (m : Roster κ υ) : List (κ × υ) := m.entries.toList

def keys (m : Roster κ υ) : List κ := m.toList.map Prod.fst

def values (m : Roster κ υ) : List υ := m.toList.map Prod.snd

def text (key : κ → List Char) (value : υ → List Char) (m : Roster κ υ) : List Char :=
  '\x7b' :: commaSeparated (m.toList.map fun entry => key entry.1 ++ ':' :: ' ' :: value entry.2) ++
    ['\x7d']

def size (m : Roster κ υ) : Nat := m.entries.size

def contains (m : Roster κ υ) (k : κ) : Bool := m.index.contains k

def get? (m : Roster κ υ) (k : κ) : Option υ :=
  match m.index[k]? with
  | some i => (m.entries[i]?).map Prod.snd
  | none => none

theorem length_toList (m : Roster κ υ) : m.toList.length = m.size := by simp [toList, size]

theorem lt_size_of_index {m : Roster κ υ} {k : κ} {i : Nat} (h : m.index[k]? = some i) :
    i < m.entries.size := by
  have hk := (m.indexed k i).1 h
  rcases Nat.lt_or_ge i m.entries.size with hi | hi
  · exact hi
  · simp [Array.getElem?_eq_none hi] at hk

theorem entry_of_index {m : Roster κ υ} {k : κ} {i : Nat} (h : m.index[k]? = some i) :
    ∃ v, m.entries[i]? = some (k, v) := by
  obtain ⟨⟨k₀, v⟩, hv, hk⟩ := Option.map_eq_some_iff.1 ((m.indexed k i).1 h)
  exact ⟨v, by simpa [← hk] using hv⟩

theorem nodup_keys (m : Roster κ υ) : m.keys.Nodup := by
  refine List.pairwise_iff_getElem.2 fun i j hi hj hij heq => ?_
  have key_at : ∀ p (hp : p < m.keys.length), m.index[m.keys[p]]? = some p := by
    intro p hp
    refine (m.indexed _ p).2 ?_
    have hs : p < m.entries.size := by simpa [keys, toList] using hp
    simp [keys, toList, Array.getElem?_eq_getElem hs]
  have h := key_at i hi
  rw [heq, key_at j hj] at h
  simp at h
  omega

theorem indexed_replace (m : Roster κ υ) {k : κ} (v : υ) {i : Nat} (h : m.index[k]? = some i)
    (k₁ : κ) (j : Nat) : m.index[k₁]? = some j ↔
      ((m.entries.setIfInBounds i (k, v))[j]?).map Prod.fst = some k₁ := by
  rw [m.indexed k₁ j, Array.getElem?_setIfInBounds]
  by_cases hij : i = j
  · subst hij
    obtain ⟨w, hw⟩ := entry_of_index h
    rw [hw]
    simp [lt_size_of_index h]
  · simp [hij]

variable [Std.TransOrd κ]

def empty : Roster κ υ where
  entries := #[]
  index := {}
  indexed := by simp

@[simp] theorem toList_empty : (empty : Roster κ υ).toList = [] := rfl

@[simp] theorem get?_empty (k : κ) : (empty : Roster κ υ).get? k = none := by simp [get?, empty]

theorem contains_eq_isSome_get? (m : Roster κ υ) (k : κ) : m.contains k = (m.get? k).isSome := by
  unfold contains get?
  rw [Std.TreeMap.contains_eq_isSome_getElem?]
  cases h : m.index[k]? with
  | none => rfl
  | some i => simp [Array.getElem?_eq_getElem (lt_size_of_index h)]

variable [Std.LawfulEqOrd κ]

theorem indexed_push (m : Roster κ υ) {k : κ} (v : υ) (h : m.index[k]? = none)
    (k₁ : κ) (j : Nat) : (m.index.insert k m.entries.size)[k₁]? = some j ↔
      ((m.entries.push (k, v))[j]?).map Prod.fst = some k₁ := by
  rw [Std.TreeMap.getElem?_insert, Array.getElem?_push]
  by_cases hk : k = k₁
  · subst hk
    by_cases hj : j = m.entries.size
    · simp [hj]
    · have hn : ¬ m.index[k]? = some j := by simp [h]
      rw [m.indexed k j] at hn
      simp only [Std.ReflCmp.compare_self, if_true, hj, if_false, Option.some.injEq]
      exact ⟨fun hs => absurd hs.symm hj, fun hs => absurd hs hn⟩
  · have hc : compare k k₁ ≠ .eq := fun hc => hk (Std.LawfulEqCmp.eq_of_compare hc)
    rw [if_neg hc, m.indexed k₁ j]
    by_cases hj : j = m.entries.size
    · subst hj
      simp [hk]
    · simp [hj]

/-- A key that is already there keeps its position and gets the new value. -/
def insert (m : Roster κ υ) (k : κ) (v : υ) : Roster κ υ :=
  match h : m.index[k]? with
  | some i => ⟨m.entries.setIfInBounds i (k, v), m.index, m.indexed_replace v h⟩
  | none => ⟨m.entries.push (k, v), m.index.insert k m.entries.size, m.indexed_push v h⟩

theorem toList_insert_of_index {m : Roster κ υ} {k : κ} {i : Nat} (v : υ)
    (h : m.index[k]? = some i) : (m.insert k v).toList = m.toList.set i (k, v) := by
  unfold insert
  split
  · next j hj =>
    obtain rfl : i = j := by simpa [hj] using h.symm
    simp [toList]
  · next hn => simp [hn] at h

theorem toList_insert_of_not_index {m : Roster κ υ} {k : κ} (v : υ) (h : m.index[k]? = none) :
    (m.insert k v).toList = m.toList ++ [(k, v)] := by
  unfold insert
  split
  · next j hj => simp [hj] at h
  · simp [toList]

theorem get?_insert [DecidableEq κ] (m : Roster κ υ) (k : κ) (v : υ) (k₁ : κ) :
    (m.insert k v).get? k₁ = if k = k₁ then some v else m.get? k₁ := by
  unfold insert
  split
  · next i h =>
    by_cases hk : k = k₁
    · subst hk
      simp [get?, h, lt_size_of_index h]
    · simp only [get?, hk, if_false]
      cases h₁ : m.index[k₁]? with
      | none => rfl
      | some j =>
        have hij : i ≠ j := by
          rintro rfl
          obtain ⟨w, hw⟩ := entry_of_index h
          obtain ⟨w₁, hw₁⟩ := entry_of_index h₁
          simp [hw, hk] at hw₁
        simp [hij]
  · next h =>
    by_cases hk : k = k₁
    · subst hk
      simp [get?]
    · have hc : compare k k₁ ≠ .eq := fun hc => hk (Std.LawfulEqCmp.eq_of_compare hc)
      simp only [get?, Std.TreeMap.getElem?_insert, hc, if_false, hk]
      cases h₁ : m.index[k₁]? with
      | none => rfl
      | some j => simp [Array.getElem?_push, Nat.ne_of_lt (lt_size_of_index h₁)]

end Roster

end RelationalSelect
