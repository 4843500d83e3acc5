import RelationalSelect.Proofs.ClauseJournal
import RelationalSelect.Proofs.NamingJournal
import RelationalSelect.Proofs.Reading.Escapes
import RelationalSelect.Proofs.Reading.Statements

set_option autoImplicit false

namespace RelationalSelect

abbrev Line := Level × String

def shownNames (names : List String) : String :=
  String.ofList (escapedList (names.map String.toList))

def readNames (s : String) : Option (List String) :=
  (readShownList s.toList).map (·.map String.ofList)

/-- A line says its event in these words, and the names, the clause or the statement can be read
back out of them. -/
def Line.Expresses (line : Line) : Event → Prop
  | .named id base name => line = (.debug, "Named occurrence NodeId(" ++ toString id.index ++
      ") of \x60" ++ base ++ "\x60 as \x60" ++ name ++ "\x60")
  | .assigned names => readNames (shownNames names) = some names ∧
      line = (.debug, "Assigned " ++ toString names.length ++ " name(s): " ++ shownNames names)
  | .emitting j =>
      let clause := String.ofList (j.sql ⟨false, false⟩)
      readJoinText clause = some j.normal ∧ line = (.trace, "Emitting " ++ clause)
  | .conditionMoved taker =>
      let source := String.ofList taker.sql
      readSourceText source = some taker ∧ line = (.trace, "Join condition moved to " ++ source)
  | .compiled q =>
      let statement := q.render ⟨false, false⟩
      readStatement statement = some (false, q.normal) ∧
        line = (.trace, "Compiled " ++ toString q.joins.length ++ " join(s): " ++ statement)

theorem readNames_shownNames (names : List String) :
    readNames (shownNames names) = some names := by
  rw [readNames, shownNames, String.toList_ofList, readShownList_escapedList]
  simp [Function.comp_def]

theorem Event.line_eq {e : Event} {level : Level} {message : String} (hlevel : e.level = level)
    (h : e.text = message.toList) : e.line = (level, message) := by
  rw [line, hlevel, Event.message, h, String.ofList_toList]

theorem Event.line_expresses (e : Event) : Line.Expresses e.line e := by
  cases e with
  | named id base name =>
    have htext : (named id base name).text = "Named occurrence ".toList ++
        ("NodeId(".toList ++ Nat.toDigits 10 id.index ++ [')']) ++ " of \x60".toList ++
        base.toList ++ "\x60 as \x60".toList ++ name.toList ++ ['\x60'] := rfl
    have hhead : "Named occurrence NodeId(".toList =
        "Named occurrence ".toList ++ "NodeId(".toList := by decide
    have hmiddle : ") of \x60".toList = [')'] ++ " of \x60".toList := by decide
    simp only [Line.Expresses, Nat.toString_eq_ofList_toDigits]
    refine line_eq rfl ?_
    simp only [htext, String.toList_append, String.toList_ofList, hhead, hmiddle, List.append_assoc]
    rfl
  | assigned names =>
    simp only [Line.Expresses, Nat.toString_eq_ofList_toDigits]
    refine ⟨readNames_shownNames names, line_eq rfl ?_⟩
    simp only [String.toList_append, String.toList_ofList, shownNames]
    rfl
  | emitting j =>
    refine ⟨readJoinText_sql j _, line_eq rfl ?_⟩
    simp only [String.toList_append, String.toList_ofList]
    rfl
  | conditionMoved taker =>
    refine ⟨readSourceText_sql taker, line_eq rfl ?_⟩
    simp only [String.toList_append, String.toList_ofList]
    rfl
  | compiled q =>
    simp only [Line.Expresses, Nat.toString_eq_ofList_toDigits]
    refine ⟨readStatement_render q _, line_eq rfl ?_⟩
    simp only [String.toList_append, String.toList_ofList, Query.render]
    rfl

theorem Logged.log_expresses {α : Type} (x : Logged α) :
    List.Forall₂ Line.Expresses x.log x.journal :=
  List.forall₂_map_left_iff.2 (List.forall₂_same.2 fun e _ => e.line_expresses)

namespace Query

variable {root : Relation} {q : Query} {names : Naming} {chain : Chain} {slots : List Slot}

theorem Compiled.sources_eq_names (h : Compiled root q names chain) :
    q.sources = names.sources := by
  refine List.right_unique_forall₂' ?_ h.sources_listed h.listed.sources_listed
  rintro o s t ⟨base, hb, hs, hst⟩ ⟨base₁, hb₁, ht, htt⟩
  rw [hst, htt, Except.ok.inj (hb.symm.trans hb₁), Option.some.inj (hs.symm.trans ht)]

theorem Compiled.journal_eq (h : Compiled root q names chain) {told : List (List Event)}
    (htold : (Chain.ofRelation names root names.outside .leading []).journal = told.flatten) :
    (compileLogged root).journal = List.zipWith .ofOccurrence root.occurrences q.sources ++
      .assigned (q.sources.map Source.name) :: (told.flatten ++ [.compiled q]) := by
  have hquery : q = ⟨q.columns, chain.source, chain.joins, chain.conditions⟩ := by
    rw [← h.source_eq, ← h.joins_eq, ← h.filter_eq]
  rw [compileLogged, Logged.eq_of_outcome h.assigned, Logged.ok_bind,
    Logged.eq_of_outcome (Chain.ok_of_flattens h.flattens), Logged.ok_bind, h.columns,
    Logged.liftM_eq, Logged.ofExcept, Logged.ok_bind, htold, Naming.journal_assign h.assigned,
    h.listed.events_eq, ← h.sources_eq_names, ← h.map_name]
  simp [← hquery]

/-- What the log tells of a tree that compiles. Joins come in the order of their slots, which is
that of their places: operands before the join that has them. -/
structure Narrates (root : Relation) (q : Query) (slots : List Slot) (log : List Line) : Prop where
  routed : Routed root q slots
  labels : Naming.Labels root.occurrences q.sources
  kinds : q.joins.map Join.kind = root.joinKinds
  lines : ∃ told, List.Forall₂ (Chain.Tells 0 q.joins slots) (Chain.joinSlots slots) told ∧
    List.Forall₂ Line.Expresses log (List.zipWith .ofOccurrence root.occurrences q.sources ++
      .assigned (q.sources.map Source.name) :: (told.flatten ++ [.compiled q]))

theorem Compiled.narrates (h : Compiled root q names chain) (style : Style) :
    ∃ slots, Narrates root q slots (root.toSqlLogged style).log := by
  obtain ⟨slots, told, hr⟩ := h.flattens.reports fun _ => rfl
  obtain ⟨bases, hbases, hcounted⟩ := Naming.counted_of_assign h.assigned
  refine ⟨slots, h.routed hr.routes, ?_, ?_, told, ?_, ?_⟩
  · rw [h.sources_eq_names]
    exact Naming.labels h.listed hbases hcounted
  · rw [h.joins_eq]
    exact h.flattens.kinds
  · rw [h.joins_eq]
    exact hr.tells
  · have hlines := (root.toSqlLogged style).log_expresses
    rwa [Relation.toSqlLogged, Logged.journal_map, h.journal_eq hr.journal] at hlines

/-- The log tells what the statement is, and if there are no names for it, which have been given. It
is the same for all styles. -/
theorem log_tells (root : Relation) (style : Style) :
    (∀ q, compile root = .ok q → (root.toSqlLogged style).outcome = .ok (q.render style) ∧
      ∃ slots, Narrates root q slots (root.toSqlLogged style).log) ∧
    (∀ e, (Naming.assign root).outcome = .error e ↔ ∃ before o, Naming.StopsAt root before o e) ∧
    ∀ before o e, Naming.StopsAt root before o e →
      (root.toSqlLogged style).outcome = .error e ∧ ∃ sources, Naming.Labels before sources ∧
        List.Forall₂ Line.Expresses (root.toSqlLogged style).log
          (List.zipWith .ofOccurrence before sources) := by
  refine ⟨fun q hq => ?_, fun e => Naming.assign_eq_error_iff, fun before o e hstops => ?_⟩
  · obtain ⟨names, chain, h⟩ := compiled_of_ok hq
    refine ⟨?_, h.narrates style⟩
    rw [Relation.outcome_toSqlLogged, Relation.toSql, hq]
    rfl
  · obtain ⟨sources, hlabels, hassign⟩ := hstops.assign_eq
    have hlogged : compileLogged root = ⟨List.zipWith .ofOccurrence before sources, .error e⟩ := by
      rw [compileLogged, hassign, Logged.error_bind]
    have hlines := (root.toSqlLogged style).log_expresses
    refine ⟨?_, sources, hlabels, ?_⟩
    · rw [Relation.toSqlLogged, Logged.outcome_map, hlogged]
      rfl
    · have hjournal : (root.toSqlLogged style).journal =
          List.zipWith .ofOccurrence before sources := by
        rw [Relation.toSqlLogged, Logged.journal_map, hlogged]
      rwa [hjournal] at hlines

def unaliased : Relation :=
  let users := Relation.table ⟨0⟩ "users" ["id"]
  .join ⟨1⟩ .inner users users (.literal (.boolean true))

def threadsLog : List Line := [
  (.debug, "Named occurrence NodeId(0) of `users` as `users`"),
  (.debug, "Named occurrence NodeId(1) of `posts` as `posts`"),
  (.debug, "Named occurrence NodeId(3) of `users` as `users_2`"),
  (.debug, "Assigned 3 name(s): [\"users\", \"posts\", \"users_2\"]"),
  (.trace, "Emitting INNER JOIN `users` AS `users_2` " ++
    "ON `posts`.`editor` = `users_2`.`id` AND `users_2`.`kind` = 1"),
  (.trace, "Emitting INNER JOIN `posts` ON TRUE"),
  (.trace, "Join condition moved to `users` AS `users_2`"),
  (.trace, "Compiled 2 join(s): SELECT `users`.`id`, `users`.`kind`, `posts`.`author`, " ++
    "`posts`.`editor`, `users_2`.`id`, `users_2`.`kind` FROM `users` " ++
    "INNER JOIN `posts` ON TRUE INNER JOIN `users` AS `users_2` " ++
    "ON `posts`.`editor` = `users_2`.`id` AND `users_2`.`kind` = 1 " ++
    "AND `posts`.`author` <> `posts`.`editor` AND `users`.`id` < `users_2`.`id` " ++
    "WHERE `users`.`kind` = 2")]

set_option maxRecDepth 10000 in
theorem log_tells_threads : (compile threads = .ok threadsQuery ∧
      (threads.toSqlLogged ⟨true, true⟩).outcome = .ok (threadsQuery.render ⟨true, true⟩) ∧
      (∃ slots, Narrates threads threadsQuery slots (threads.toSqlLogged ⟨true, true⟩).log) ∧
      (threads.toSqlLogged ⟨true, true⟩).log = threadsLog) ∧
    ∃ before o e, Naming.StopsAt unaliased before o e ∧
      (unaliased.toSqlLogged ⟨true, true⟩).outcome = .error e ∧
      (∃ sources, Naming.Labels before sources ∧
        List.Forall₂ Line.Expresses (unaliased.toSqlLogged ⟨true, true⟩).log
          (List.zipWith .ofOccurrence before sources)) ∧
      (unaliased.toSqlLogged ⟨true, true⟩).log =
        [(.debug, "Named occurrence NodeId(0) of `users` as `users`")] := by
  have hq : compile threads = .ok threadsQuery := by rfl
  have hassign : (Naming.assign unaliased).outcome =
      .error (.malformedTree .repeatedOccurrence) := by rfl
  have hlog : (threads.toSqlLogged ⟨true, true⟩).log = threadsLog := by
    change _ = [_, _, _, _, (_, String.ofList _ ++ String.ofList _), _, _, (_, String.ofList _ ++
      String.ofList _ ++ String.ofList _ ++ String.ofList _ ++ String.ofList _ ++ String.ofList _)]
    simp only [← String.ofList_append]
    rfl
  obtain ⟨hcompiled, -, -⟩ := log_tells threads ⟨true, true⟩
  obtain ⟨-, hstops, hstopped⟩ := log_tells unaliased ⟨true, true⟩
  obtain ⟨before, o, h⟩ := (hstops _).1 hassign
  obtain ⟨houtcome, hsources⟩ := hstopped _ _ _ h
  obtain ⟨hthreads, hslots⟩ := hcompiled _ hq
  exact ⟨⟨hq, hthreads, hslots, hlog⟩, before, o, _, h, houtcome, hsources, by rfl⟩

end Query

end RelationalSelect
