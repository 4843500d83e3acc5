import RelationalSelect.Proofs.FirstFree
import RelationalSelect.Proofs.Refusals

set_option autoImplicit false

namespace RelationalSelect

def Event.ofOccurrence (o : Relation) (s : Source) : Event := .named o.id s.table s.name

namespace Naming

def events (names : Naming) : List Event := names.toList.map fun e => .named e.1 e.2.base e.2.name

def sources (names : Naming) : List Source :=
  names.values.map fun o => Source.named o.base o.name

/-- Sources for occurrences in order: each has the first candidate for its table that none before
it has. -/
structure Labels (os : List Relation) (sources : List Source) : Prop where
  tables : List.Forall₂ (fun o s => o.baseName = .ok s.table) os sources
  firstFree : ∀ k s, sources[k]? = some s → ∃ i, s.name = candidate s.table i ∧
    IsLeast {i | candidate s.table i ∉ (sources.take k).map Source.name} i

theorem map_name_sources (names : Naming) : names.sources.map Source.name = names.toStrings := by
  simp [sources, toStrings, Function.comp_def]

theorem Names.sources_listed {names : Naming} {os : List Relation} (hn : names.Names os) :
    List.Forall₂ (fun o s => ∃ base, o.baseName = .ok base ∧ names.nameOf o.id = some s.name ∧
      s = Source.named base s.name) os names.sources := by
  unfold sources Roster.values
  rw [List.map_map, List.forall₂_map_right_iff]
  exact hn.listed_nameOf.imp fun _ _ ⟨he, hname⟩ => ⟨_, he.base_eq, by simpa using hname, by simp⟩

theorem Names.events_eq {names : Naming} {os : List Relation} (hn : names.Names os) :
    events names = List.zipWith .ofOccurrence os names.sources := by
  unfold events sources Roster.values
  rw [List.map_map]
  have hlisted := hn.listed
  clear hn
  generalize names.toList = entries at hlisted
  induction hlisted with
  | nil => rfl
  | @cons o e _ _ he _ ih =>
    rw [List.map_cons, List.map_cons, List.zipWith_cons_cons, ih, he.id_eq]
    exact congrArg (Event.named o.id e.2.base · :: _) (Source.name_named _ _).symm

theorem labels {names : Naming} {os : List Relation} {bases : List String} (hn : names.Names os)
    (hbases : List.Forall₂ (fun o base => o.baseName = .ok base) os bases)
    (hcounted : Counted bases names.tally) : Labels os names.sources := by
  have htables : List.Forall₂ (fun o s => o.baseName = .ok s.table) os names.sources := by
    refine hn.sources_listed.imp fun o s ⟨base, hbase, _, hs⟩ => ?_
    rw [hbase, hs]
    rfl
  refine ⟨htables, fun k s hs => ?_⟩
  obtain ⟨hk, rfl⟩ := List.getElem?_eq_some_iff.1 hs
  have hos : k < os.length := htables.length_eq ▸ hk
  have hlt : k < bases.length := hbases.length_eq ▸ hos
  have hbase : bases[k] = names.sources[k].table :=
    Except.ok.inj ((hbases.get hos hlt).symm.trans (htables.get hos hk))
  obtain ⟨i, hname, hleast⟩ := hcounted.firstFree (List.getElem?_eq_getElem hlt)
  change names.toStrings[k]? = _ at hname
  change IsLeast {i | candidate bases[k] i ∉ names.toStrings.take k} i at hleast
  rw [← map_name_sources, List.getElem?_map, hs, hbase] at hname
  rw [← map_name_sources, ← List.map_take, hbase] at hleast
  exact ⟨i, Option.some.inj hname, hleast⟩

theorem add_eq (names : Naming) (r : Relation) : names.add r =
    if names.contains r.id then Logged.malformed .repeatedOccurrence
    else match r.baseName with
      | .error e => Logged.ofExcept (.error e)
      | .ok base =>
          let number := freeNumber names.toStrings base (names.lastNumber base)
          ⟨[.named r.id base (numbered base number)],
            .ok (names.insert r.id ⟨base, number, r.ids⟩)⟩ := by
  unfold add
  split
  · rfl
  · cases r.baseName <;> rfl

theorem journal_add {names names₁ : Naming} {r : Relation}
    (h : (names.add r).outcome = .ok names₁) :
    events names₁ = names.events ++ (names.add r).journal := by
  obtain ⟨hfree, base, hbase, rfl⟩ := add_eq_ok h
  rw [add_eq, Roster.contains_eq_isSome_get?, hfree, hbase]
  unfold events
  rw [Roster.toList_insert_of_get? hfree, List.map_append]
  rfl

theorem add_of_error {names : Naming} {r : Relation} {e : Error}
    (h : (names.add r).outcome = .error e) : names.add r = ⟨[], .error e⟩ := by
  have hjournal : (names.add r).journal = [] := by
    rw [add_eq] at h ⊢
    split
    · rfl
    · next hc =>
      rw [if_neg hc] at h
      split
      · rfl
      · next hb =>
        rw [hb] at h
        cases h
  rw [Logged.eq_of_outcome h, hjournal]

theorem journal_foldlM {names names₁ : Naming} {rs : List Relation}
    (h : (rs.foldlM add names).outcome = .ok names₁) :
    events names₁ = names.events ++ (rs.foldlM add names).journal := by
  induction rs generalizing names with
  | nil =>
    cases h
    simp
  | cons r rs ih =>
    rw [List.foldlM_cons, Logged.outcome_bind] at h
    obtain ⟨names₂, hadd, hfold⟩ := bind_eq_ok_iff.1 h
    rw [List.foldlM_cons, Logged.journal_bind, hadd, ih hfold, journal_add hadd, List.append_assoc]

theorem journal_assign {root : Relation} {names : Naming}
    (h : (assign root).outcome = .ok names) :
    (assign root).journal = names.events ++ [.assigned names.toStrings] := by
  unfold assign at h ⊢
  rw [Relation.forOccurrences_eq_foldlM] at h ⊢
  rw [Logged.outcome_bind] at h
  obtain ⟨names₁, hfold, h⟩ := bind_eq_ok_iff.1 h
  cases h
  rw [Logged.journal_bind, hfold, journal_foldlM hfold]
  rfl

/-- Naming stops at the first occurrence that stands for a second time or has no base table. -/
structure StopsAt (root : Relation) (before : List Relation) (o : Relation) (e : Error) : Prop where
  split : ∃ after, root.occurrences = before ++ o :: after
  distinct : (before.map Relation.id).Nodup
  based : ∀ r ∈ before, ∃ base, r.baseName = .ok base
  cause : o.id ∈ before.map Relation.id ∧ e = .malformedTree .repeatedOccurrence ∨
    o.id ∉ before.map Relation.id ∧ o.baseName = .error e

theorem Names.add_eq_error_iff {names : Naming} {os : List Relation} (hn : names.Names os)
    {o : Relation} {e : Error} : (names.add o).outcome = .error e ↔
      o.id ∈ os.map Relation.id ∧ e = .malformedTree .repeatedOccurrence ∨
        o.id ∉ os.map Relation.id ∧ o.baseName = .error e := by
  rw [hn.map_id, ← Roster.contains_iff, add_eq]
  cases hc : names.contains o.id with
  | true => simp [eq_comm]
  | false => cases hb : o.baseName <;> simp

theorem exists_stop {names : Naming} {rs : List Relation} {e : Error}
    (h : (rs.foldlM add names).outcome = .error e) : ∃ before o after names₁,
      rs = before ++ o :: after ∧ (before.foldlM add names).outcome = .ok names₁ ∧
        (names₁.add o).outcome = .error e := by
  induction rs generalizing names with
  | nil => cases h
  | cons r rs ih =>
    rw [List.foldlM_cons, Logged.outcome_bind] at h
    rcases bind_eq_error_iff.1 h with h | ⟨names₂, hadd, h⟩
    · exact ⟨[], r, rs, names, rfl, rfl, h⟩
    · obtain ⟨before, o, after, names₁, rfl, hbefore, ho⟩ := ih h
      refine ⟨r :: before, o, after, names₁, rfl, ?_, ho⟩
      rw [List.foldlM_cons, Logged.outcome_bind]
      exact bind_eq_ok_iff.2 ⟨names₂, hadd, hbefore⟩

theorem foldlM_of_stop {names names₁ : Naming} {before : List Relation} {o : Relation} {e : Error}
    (hbefore : (before.foldlM add names).outcome = .ok names₁)
    (ho : (names₁.add o).outcome = .error e) (after : List Relation) :
    (before ++ o :: after).foldlM add names = ⟨(before.foldlM add names).journal, .error e⟩ := by
  rw [List.foldlM_append, Logged.eq_of_outcome hbefore, Logged.ok_bind, List.foldlM_cons,
    add_of_error ho, Logged.error_bind, List.append_nil]

theorem StopsAt.assign_eq {root : Relation} {before : List Relation} {o : Relation} {e : Error}
    (h : StopsAt root before o e) : ∃ sources, Labels before sources ∧
      assign root = ⟨List.zipWith .ofOccurrence before sources, .error e⟩ := by
  obtain ⟨after, hsplit⟩ := h.split
  obtain ⟨names, hbefore⟩ := names_empty.exists_foldlM h.distinct
    fun r hr => r.baseName_ok_iff.1 (h.based r hr)
  have hn : names.Names before := by simpa using names_empty.foldlM hbefore
  obtain ⟨bases, hbases, hcounted⟩ := counted_foldlM .start hbefore
  refine ⟨names.sources, labels hn hbases hcounted, ?_⟩
  have hjournal : names.events = (before.foldlM add Roster.empty).journal :=
    journal_foldlM hbefore
  rw [assign, Relation.forOccurrences_eq_foldlM, hsplit,
    foldlM_of_stop hbefore (hn.add_eq_error_iff.2 h.cause), Logged.error_bind, ← hjournal,
    hn.events_eq]

theorem assign_eq_error_iff {root : Relation} {e : Error} :
    (assign root).outcome = .error e ↔ ∃ before o, StopsAt root before o e := by
  constructor
  · intro h
    rw [assign, Relation.forOccurrences_eq_foldlM, Logged.outcome_bind] at h
    rcases bind_eq_error_iff.1 h with h | ⟨names, -, h⟩
    · obtain ⟨before, o, after, names, hsplit, hbefore, ho⟩ := exists_stop h
      have hn : names.Names before := by simpa using names_empty.foldlM hbefore
      have based : ∀ r ∈ before, ∃ base, r.baseName = .ok base := by
        intro r hr
        obtain ⟨o, -, he⟩ := hn.get?_of_mem hr
        exact ⟨o.base, he.base_eq⟩
      exact ⟨before, o, ⟨after, hsplit⟩, hn.ids_nodup, based, hn.add_eq_error_iff.1 ho⟩
    · cases h
  · rintro ⟨before, o, h⟩
    obtain ⟨sources, -, hassign⟩ := h.assign_eq
    rw [hassign]

end Naming

end RelationalSelect
