import Mathlib.Data.List.Forall2
import RelationalSelect.Proofs.Histories
import RelationalSelect.Proofs.Numbering

set_option autoImplicit false

namespace RelationalSelect

namespace Naming

structure Entry (r : Relation) (e : Identity × Occurrence) : Prop where
  id_eq : e.1 = r.id
  base_eq : r.baseName = .ok e.2.base
  covered_eq : e.2.covered = r.ids

structure Names (names : Naming) (rs : List Relation) : Prop where
  listed : List.Forall₂ Entry rs names.toList
  distinct : names.toStrings.Nodup

theorem names_empty : Names Roster.empty [] := ⟨.nil, .nil⟩

theorem add_eq_ok {names names₁ : Naming} {r : Relation}
    (h : (names.add r).outcome = .ok names₁) :
    names.get? r.id = none ∧ ∃ base, r.baseName = .ok base ∧ names₁ = names.insert r.id
      ⟨base, freeNumber names.toStrings base (names.lastNumber base), r.ids⟩ := by
  unfold add at h
  split at h
  · simp at h
  · next hc =>
    have hn : names.get? r.id = none := by
      rw [Roster.contains_eq_isSome_get?] at hc
      simpa using hc
    simp only [Logged.liftM_eq, Logged.outcome_bind, Logged.outcome_ofExcept] at h
    obtain ⟨base, hb, h⟩ := bind_eq_ok_iff.1 h
    cases h
    exact ⟨hn, base, hb, rfl⟩

theorem Names.add {names names₁ : Naming} {rs : List Relation} {r : Relation}
    (hn : Names names rs) (h : (names.add r).outcome = .ok names₁) : Names names₁ (rs ++ [r]) := by
  obtain ⟨hfree, base, hbase, rfl⟩ := add_eq_ok h
  obtain ⟨-, hfresh⟩ := freeNumber_free names.toStrings base (names.lastNumber base)
  generalize freeNumber names.toStrings base (names.lastNumber base) = number at *
  constructor
  · rw [Roster.toList_insert_of_get? hfree]
    exact List.rel_append hn.listed (.cons ⟨rfl, hbase, rfl⟩ .nil)
  · unfold toStrings
    rw [Roster.values_insert_of_get? hfree, List.map_append]
    refine List.nodup_append.2 ⟨hn.distinct, List.nodup_singleton _, ?_⟩
    rintro a ha b hb rfl
    rw [List.mem_singleton.1 hb] at ha
    exact hfresh ha

theorem Names.foldlM {names names₁ : Naming} {rs₀ rs : List Relation} (hn : Names names rs₀)
    (h : (rs.foldlM Naming.add names).outcome = .ok names₁) : Names names₁ (rs₀ ++ rs) := by
  induction rs generalizing names rs₀ with
  | nil =>
    simp only [List.foldlM_nil, Logged.outcome_pure] at h
    cases h
    simpa using hn
  | cons r rs ih =>
    simp only [List.foldlM_cons, Logged.outcome_bind] at h
    obtain ⟨names₂, ha, h⟩ := bind_eq_ok_iff.1 h
    have hr := ih (hn.add ha) h
    simpa using hr

theorem names_of_assign {root : Relation} {names : Naming}
    (h : (assign root).outcome = .ok names) : Names names root.occurrences := by
  unfold assign at h
  rw [Relation.forOccurrences_eq_foldlM] at h
  simp only [Logged.outcome_bind] at h
  obtain ⟨names₁, hf, h⟩ := bind_eq_ok_iff.1 h
  cases h
  simpa using names_empty.foldlM hf

end Naming

end RelationalSelect
