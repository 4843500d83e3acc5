import Mathlib.Data.List.Nodup
import RelationalSelect.Naming

set_option autoImplicit false

namespace RelationalSelect

theorem toDigits_inj {m n : Nat} (h : Nat.toDigits 10 m = Nat.toDigits 10 n) : m = n := by
  have hv := congrArg (fun digits => Nat.ofDigitChars 10 digits 0) h
  simpa using hv

theorem numbered_inj {base : String} {m n : Nat} (h : numbered base m = numbered base n) :
    m = n := by
  unfold numbered at h
  split at h
  · next hm =>
    split at h
    · next hn => rw [hm, hn]
    · have hl := congrArg (fun s => s.toList.length) h
      simp at hl
  · split at h
    · have hl := congrArg (fun s => s.toList.length) h
      simp at hl
    · have hl := congrArg String.toList h
      simp only [String.toList_ofList] at hl
      have ht := List.append_cancel_left hl
      exact toDigits_inj (List.cons.inj ht).2

theorem exists_free (taken : List String) (base : String) (n : Nat) :
    ∃ k ∈ List.range' (n + 1) (taken.length + 1), numbered base k ∉ taken := by
  by_contra hall
  simp only [not_exists, not_and, not_not] at hall
  have hd : ((List.range' (n + 1) (taken.length + 1)).map (numbered base)).Nodup :=
    List.Nodup.map (fun _ _ => numbered_inj) List.nodup_range'
  -- there is one candidate more than there are names to avoid
  have hs : (List.range' (n + 1) (taken.length + 1)).map (numbered base) ⊆ taken := by
    intro t ht
    obtain ⟨k, hk, rfl⟩ := List.mem_map.1 ht
    exact hall k hk
  have hl := hd.length_le_of_subset hs
  rw [List.length_map, List.length_range'] at hl
  omega

theorem Naming.find?_freeNumber (taken : List String) (base : String) (n : Nat) :
    ((List.range' (n + 1) (taken.length + 1)).find? fun k => !taken.contains (numbered base k)) =
      some (freeNumber taken base n) := by
  obtain ⟨k, hk, hfree⟩ := exists_free taken base n
  have hsome : ((List.range' (n + 1) (taken.length + 1)).find? fun k =>
      !taken.contains (numbered base k)).isSome = true :=
    List.find?_isSome.2 ⟨k, hk, by simpa using hfree⟩
  obtain ⟨m, hm⟩ := Option.isSome_iff_exists.1 hsome
  rw [freeNumber, hm]
  rfl

theorem Naming.freeNumber_free (taken : List String) (base : String) (n : Nat) :
    n < freeNumber taken base n ∧ numbered base (freeNumber taken base n) ∉ taken := by
  obtain ⟨hfree, hmem, -⟩ := List.find?_range'_eq_some.1 (find?_freeNumber taken base n)
  have hrange := List.mem_range'_1.1 hmem
  exact ⟨by omega, by simpa using hfree⟩

theorem Naming.taken_of_lt_freeNumber {taken : List String} {base : String} {n j : Nat}
    (hj : n < j) (hlt : j < freeNumber taken base n) : numbered base j ∈ taken := by
  obtain ⟨-, -, htaken⟩ := List.find?_range'_eq_some.1 (find?_freeNumber taken base n)
  simpa using htaken j hj hlt

end RelationalSelect
