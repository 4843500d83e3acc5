import Mathlib.Logic.Function.Basic
import Mathlib.Order.Bounds.Defs
import RelationalSelect.Proofs.Views

/-!
Every occurrence gets the first name that is free.

A pass over the occurrences counts for each base table how far it has come, and never starts anew.
From there it counts on until a name is free. All names that it has counted past are taken, so a
search from the start would find the same name: the first of the base and its numbered forms that
no occurrence before has. This holds whatever the tables are called, also where the name of one
looks like a numbered form of another.
-/

set_option autoImplicit false

namespace RelationalSelect

/-- The names that occurrences of a base table may get, the first one to begin with. -/
def candidate (base : String) : Nat → String
  | 0 => base
  | i + 1 => base ++ "_" ++ toString (i + 2)

theorem numbered_eq_candidate (base : String) (i : Nat) :
    numbered base (i + 1) = candidate base i := by
  cases i with
  | zero => rfl
  | succ i =>
    have hne : i + 1 + 1 ≠ 1 := by omega
    apply String.toList_inj.1
    rw [numbered, if_neg hne, candidate, Nat.toString_eq_ofList_toDigits]
    simp

/-- Counting on from a number until a name is free. -/
inductive Skips (taken : List String) (base : String) : Nat → Nat → Prop
  | free {n : Nat} (h : numbered base (n + 1) ∉ taken) : Skips taken base n (n + 1)
  | next {n m : Nat} (h : numbered base (n + 1) ∈ taken) (rest : Skips taken base (n + 1) m) :
      Skips taken base n m

theorem skips_iff {taken : List String} {base : String} {n m : Nat} : Skips taken base n m ↔
    n < m ∧ numbered base m ∉ taken ∧ ∀ j, n < j → j < m → numbered base j ∈ taken := by
  constructor
  · intro h
    induction h with
    | free h => exact ⟨Nat.lt_succ_self _, h, fun j hj hjm => by omega⟩
    | @next n m h _ ih =>
      obtain ⟨hlt, hfree, htaken⟩ := ih
      refine ⟨Nat.lt_of_succ_lt hlt, hfree, fun j hj hjm => ?_⟩
      rcases Nat.eq_or_lt_of_le hj with rfl | hj
      · exact h
      · exact htaken j hj hjm
  · rintro ⟨hlt, hfree, htaken⟩
    induction hd : m - (n + 1) generalizing n with
    | zero =>
      obtain rfl : m = n + 1 := by omega
      exact .free hfree
    | succ d ih =>
      refine .next (htaken (n + 1) (Nat.lt_succ_self n) (by omega)) (ih (by omega) ?_ (by omega))
      exact fun j hj hjm => htaken j (by omega) hjm

theorem skips_freeNumber (taken : List String) (base : String) (n : Nat) :
    Skips taken base n (Naming.freeNumber taken base n) := by
  obtain ⟨hlt, hfree⟩ := Naming.freeNumber_free taken base n
  exact skips_iff.2 ⟨hlt, hfree, fun j hj hjm => Naming.taken_of_lt_freeNumber hj hjm⟩

/-- The names that a pass has given, and how far it has counted for each base. -/
structure Tally where
  taken : List String
  counts : String → Nat

/-- Where a pass stands that has named occurrences with these bases. -/
inductive Counted : List String → Tally → Prop
  | start : Counted [] ⟨[], fun _ => 0⟩
  | name {bases : List String} {tally : Tally} {base : String} {m : Nat} (h : Counted bases tally)
      (hskips : Skips tally.taken base (tally.counts base) m) :
      Counted (bases ++ [base])
        ⟨tally.taken ++ [numbered base m], Function.update tally.counts base m⟩

namespace Counted

variable {bases : List String} {tally : Tally}

theorem length_taken (h : Counted bases tally) : tally.taken.length = bases.length := by
  induction h with
  | start => rfl
  | name _ _ ih => simp [ih]

theorem mem_taken (h : Counted bases tally) {base : String} {j : Nat} (hpos : 0 < j)
    (hle : j ≤ tally.counts base) : numbered base j ∈ tally.taken := by
  induction h with
  | start => exact absurd hle (Nat.not_le.2 hpos)
  | @name bases tally base₁ m _ hskips ih =>
    obtain ⟨-, -, htaken⟩ := skips_iff.1 hskips
    simp only [Function.update_apply] at hle
    split at hle
    · next heq =>
      subst heq
      rcases Nat.eq_or_lt_of_le hle with rfl | hlt
      · exact List.mem_append_right _ (List.mem_singleton_self _)
      · refine List.mem_append_left _ ?_
        rcases Nat.lt_or_ge (tally.counts base) j with hj | hj
        · exact htaken j hj hlt
        · exact ih hj
    · exact List.mem_append_left _ (ih hle)

theorem skips_iff_afresh (h : Counted bases tally) (base : String) (m : Nat) :
    Skips tally.taken base (tally.counts base) m ↔ Skips tally.taken base 0 m := by
  rw [skips_iff, skips_iff]
  constructor
  · rintro ⟨hlt, hfree, htaken⟩
    refine ⟨by omega, hfree, fun j hpos hjm => ?_⟩
    rcases Nat.lt_or_ge (tally.counts base) j with hj | hj
    · exact htaken j hj hjm
    · exact h.mem_taken hpos hj
  · rintro ⟨hpos, hfree, htaken⟩
    refine ⟨?_, hfree, fun j hj hjm => htaken j (by omega) hjm⟩
    by_contra hle
    exact hfree (h.mem_taken hpos (by omega))

end Counted

theorem Skips.isLeast {taken : List String} {base : String} {m : Nat} (h : Skips taken base 0 m) :
    ∃ i, numbered base m = candidate base i ∧ IsLeast {i | candidate base i ∉ taken} i := by
  obtain ⟨hpos, hfree, htaken⟩ := skips_iff.1 h
  obtain ⟨i, rfl⟩ : ∃ i, m = i + 1 := ⟨m - 1, by omega⟩
  rw [numbered_eq_candidate] at hfree ⊢
  refine ⟨i, rfl, hfree, fun j hj => ?_⟩
  by_contra hlt
  have hmem := htaken (j + 1) (Nat.succ_pos j) (by omega)
  rw [numbered_eq_candidate] at hmem
  exact hj hmem

theorem Counted.firstFree {bases : List String} {tally : Tally} (h : Counted bases tally) {k : Nat}
    {base : String} (hk : bases[k]? = some base) : ∃ i,
      tally.taken[k]? = some (candidate base i) ∧
        IsLeast {i | candidate base i ∉ tally.taken.take k} i := by
  induction h with
  | start => simp at hk
  | @name bases tally base₁ m h hskips ih =>
    have hlength := h.length_taken
    rcases Nat.lt_or_ge k bases.length with hlt | hge
    · rw [List.getElem?_append_left hlt] at hk
      obtain ⟨i, hname, hleast⟩ := ih hk
      refine ⟨i, ?_, ?_⟩
      · rwa [List.getElem?_append_left (by omega)]
      · rwa [List.take_append_of_le_length (by omega)]
    · obtain rfl : k = bases.length := by
        have hbound := (List.getElem?_eq_some_iff.1 hk).1
        rw [List.length_append, List.length_singleton] at hbound
        omega
      rw [List.getElem?_concat_length] at hk
      obtain rfl := Option.some.inj hk
      obtain ⟨i, hname, hleast⟩ := ((h.skips_iff_afresh base₁ m).1 hskips).isLeast
      refine ⟨i, ?_, ?_⟩
      · rw [← hlength, hname, List.getElem?_concat_length]
      · rwa [← hlength, List.take_left]

namespace Naming

def tally (names : Naming) : Tally := ⟨names.toStrings, names.lastNumber⟩

theorem tally_insert {names : Naming} {x : Identity} (hfree : names.get? x = none)
    (o : Occurrence) : tally (names.insert x o) =
      ⟨names.toStrings ++ [o.name], Function.update names.lastNumber o.base o.number⟩ := by
  unfold tally toStrings lastNumber
  rw [Roster.values_insert_of_get? hfree]
  simp only [List.map_append, List.foldl_append, Tally.mk.injEq]
  refine ⟨rfl, funext fun base => ?_⟩
  simp only [Function.update_apply, eq_comm (a := base)]
  rfl

theorem counted_add {names names₁ : Naming} {r : Relation} {bases : List String}
    (h : Counted bases names.tally) (hadd : (names.add r).outcome = .ok names₁) :
    ∃ base, r.baseName = .ok base ∧ Counted (bases ++ [base]) names₁.tally := by
  obtain ⟨hfree, base, hbase, rfl⟩ := add_eq_ok hadd
  refine ⟨base, hbase, ?_⟩
  rw [tally_insert hfree]
  exact h.name (skips_freeNumber _ _ _)

theorem counted_foldlM {names names₁ : Naming} {rs : List Relation} {bases : List String}
    (h : Counted bases names.tally) (hfold : (rs.foldlM add names).outcome = .ok names₁) :
    ∃ further, List.Forall₂ (fun r base => r.baseName = .ok base) rs further ∧
      Counted (bases ++ further) names₁.tally := by
  induction rs generalizing names bases with
  | nil =>
    cases hfold
    exact ⟨[], .nil, by rwa [List.append_nil]⟩
  | cons r rs ih =>
    simp only [List.foldlM_cons, Logged.outcome_bind] at hfold
    obtain ⟨names₂, hadd, hfold⟩ := bind_eq_ok_iff.1 hfold
    obtain ⟨base, hbase, hcounted⟩ := counted_add h hadd
    obtain ⟨further, hbases, hfurther⟩ := ih hcounted hfold
    rw [List.append_assoc] at hfurther
    exact ⟨base :: further, .cons hbase hbases, hfurther⟩

theorem counted_of_assign {root : Relation} {names : Naming}
    (h : (assign root).outcome = .ok names) :
    ∃ bases, List.Forall₂ (fun r base => r.baseName = .ok base) root.occurrences bases ∧
      Counted bases names.tally := by
  unfold assign at h
  rw [Relation.forOccurrences_eq_foldlM] at h
  simp only [Logged.outcome_bind] at h
  obtain ⟨names₁, hfold, h⟩ := bind_eq_ok_iff.1 h
  cases h
  exact counted_foldlM .start hfold

structure Greedy (root : Relation) (names : Naming) : Prop where
  listed : List.Forall₂ (fun o t => names.nameOf o.id = some t) root.occurrences names.toStrings
  /-- An occurrence goes by the first candidate for its base that none before it goes by. -/
  firstFree : ∀ k o, root.occurrences[k]? = some o → ∃ base i, o.baseName = .ok base ∧
    names.toStrings[k]? = some (candidate base i) ∧
      IsLeast {i | candidate base i ∉ names.toStrings.take k} i
  /-- A pass that goes on counting for each base has given the names. -/
  counted : ∃ bases, List.Forall₂ (fun o base => o.baseName = .ok base) root.occurrences bases ∧
    Counted bases names.tally
  /-- Wherever a pass stands it comes to a name, and to the one that it would come to from the
  start. -/
  afresh : ∀ bases tally, Counted bases tally → ∀ base,
    (∃ m, Skips tally.taken base (tally.counts base) m) ∧
      ∀ m, Skips tally.taken base (tally.counts base) m ↔ Skips tally.taken base 0 m
  distinct : names.toStrings.Nodup

theorem greedy_of_assign {root : Relation} {names : Naming}
    (h : (assign root).outcome = .ok names) : Greedy root names := by
  have hn := names_of_assign h
  obtain ⟨bases, hbases, hcounted⟩ := counted_of_assign h
  refine ⟨hn.toStrings_eq, fun k o ho => ?_, ⟨bases, hbases, hcounted⟩,
    fun bases tally htally base => ?_, hn.distinct⟩
  · obtain ⟨hk, rfl⟩ := List.getElem?_eq_some_iff.1 ho
    have hk₁ : k < bases.length := hbases.length_eq ▸ hk
    obtain ⟨i, hname, hleast⟩ := hcounted.firstFree (List.getElem?_eq_getElem hk₁)
    exact ⟨bases[k], i, hbases.get hk hk₁, hname, hleast⟩
  · exact ⟨⟨_, skips_freeNumber _ _ _⟩, htally.skips_iff_afresh base⟩

/-- Tables whose names look like numbered forms of others, or are empty, and aliases of them. -/
def lookalikes : Relation :=
  let second := Relation.table ⟨0⟩ "users_2" ["id"]
  let users := Relation.table ⟨1⟩ "users" ["id"]
  let plain := Relation.table ⟨2⟩ "" ["id"]
  let dashed := Relation.table ⟨3⟩ "_2" ["id"]
  let join (n : Nat) (l r : Relation) := Relation.join ⟨n⟩ .inner l r (.literal (.boolean true))
  join 20 (join 21 (join 22 second users) (join 23 (.aliased ⟨4⟩ users) (.aliased ⟨5⟩ second)))
    (join 24 plain (join 25 (.aliased ⟨6⟩ plain) dashed))

def lookalikeNames : Naming :=
  (((((((Roster.empty.insert ⟨0⟩ ⟨"users_2", 1, [⟨0⟩]⟩).insert ⟨1⟩ ⟨"users", 1, [⟨1⟩]⟩).insert
    ⟨4⟩ ⟨"users", 3, [⟨4⟩, ⟨1⟩]⟩).insert ⟨5⟩ ⟨"users_2", 2, [⟨5⟩, ⟨0⟩]⟩).insert
    ⟨2⟩ ⟨"", 1, [⟨2⟩]⟩).insert ⟨6⟩ ⟨"", 2, [⟨6⟩, ⟨2⟩]⟩).insert ⟨3⟩ ⟨"_2", 2, [⟨3⟩]⟩)

theorem greedy_lookalikes : (assign lookalikes).outcome = .ok lookalikeNames ∧
    lookalikeNames.toStrings =
      ["users_2", "users", "users_3", "users_2_2", "", "_2", "_2_2"] ∧
    Greedy lookalikes lookalikeNames := by
  have hassign : (assign lookalikes).outcome = .ok lookalikeNames := by rfl
  exact ⟨hassign, by decide, greedy_of_assign hassign⟩

end Naming

end RelationalSelect
