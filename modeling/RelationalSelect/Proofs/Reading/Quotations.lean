import Mathlib.Data.List.Basic
import RelationalSelect.Query.Text

set_option autoImplicit false

namespace RelationalSelect

theorem eq_of_readDoubled {q : Char} {text s tail : List Char}
    (h : readDoubled q text = some (s, tail)) :
    text = doubled q s ++ q :: tail ∧ tail.head? ≠ some q := by
  fun_induction readDoubled q text generalizing s with
  | case1 => contradiction
  | case2 =>
    cases h
    simp [doubled]
  | case3 => contradiction
  | case4 rest ih =>
    obtain ⟨p, hp, heq⟩ := Option.map_eq_some_iff.1 h
    cases heq
    obtain ⟨hrest, htail⟩ := ih hp
    exact ⟨by simp [doubled, hrest], htail⟩
  | case5 d rest hd =>
    cases h
    simp [doubled, hd]
  | case6 c d rest hc ih =>
    obtain ⟨p, hp, heq⟩ := Option.map_eq_some_iff.1 h
    cases heq
    obtain ⟨hrest, htail⟩ := ih hp
    exact ⟨by simp [doubled, hc, hrest], htail⟩

theorem readQuoted_eq_some_iff {q : Char} {text s tail : List Char} :
    readQuoted q text = some (s, tail) ↔ text = quoted q s ++ tail ∧ tail.head? ≠ some q := by
  constructor
  · intro h
    cases text with
    | nil => contradiction
    | cons c rest =>
      rw [readQuoted] at h
      split at h
      · next hc =>
        obtain ⟨hrest, htail⟩ := eq_of_readDoubled h
        exact ⟨by simp [quoted, hc, hrest], htail⟩
      · contradiction
  · rintro ⟨rfl, htail⟩
    exact readQuoted_quoted_append s htail

def readAfterPoint (table : List Char) : List Char → Option (Column × List Char)
  | '.' :: s => (readQuoted '\x60' s).map fun p => (⟨String.ofList table, String.ofList p.1⟩, p.2)
  | _ => none

def readColumn (s : List Char) : Option (Column × List Char) :=
  (readQuoted '\x60' s).bind fun p => readAfterPoint p.1 p.2

theorem readAfterPoint_eq_some_iff {table text tail : List Char} {c : Column} :
    readAfterPoint table text = some (c, tail) ↔ table = c.table.toList ∧
      text = '.' :: identifier c.name ++ tail ∧ tail.head? ≠ some '\x60' := by
  obtain ⟨owner, name⟩ := c
  constructor
  · intro h
    unfold readAfterPoint at h
    split at h
    · obtain ⟨⟨read, rest⟩, hp, heq⟩ := Option.map_eq_some_iff.1 h
      cases heq
      obtain ⟨htext, htail⟩ := readQuoted_eq_some_iff.1 hp
      exact ⟨String.toList_ofList.symm, by simp [identifier, htext], htail⟩
    · contradiction
  · rintro ⟨rfl, rfl, htail⟩
    simp [readAfterPoint, identifier, readQuoted_quoted_append _ htail]

theorem readColumn_eq_some_iff {text tail : List Char} {c : Column} :
    readColumn text = some (c, tail) ↔ text = c.sql ++ tail ∧ tail.head? ≠ some '\x60' := by
  constructor
  · intro h
    obtain ⟨⟨table, rest⟩, hp, hrest⟩ := Option.bind_eq_some_iff.1 h
    obtain ⟨rfl, rfl, htail⟩ := readAfterPoint_eq_some_iff.1 hrest
    obtain ⟨rfl, -⟩ := readQuoted_eq_some_iff.1 hp
    exact ⟨by simp [Column.sql, identifier], htail⟩
  · rintro ⟨rfl, htail⟩
    have hname : readAfterPoint c.table.toList ('.' :: identifier c.name ++ tail) =
        some (c, tail) := readAfterPoint_eq_some_iff.2 ⟨rfl, rfl, htail⟩
    rw [readColumn, Column.sql, List.append_assoc, identifier, readQuoted_quoted_append _ (by simp)]
    exact hname

theorem length_of_readColumn {text tail : List Char} {c : Column}
    (h : readColumn text = some (c, tail)) : tail.length < text.length := by
  obtain ⟨rfl, -⟩ := readColumn_eq_some_iff.1 h
  simp only [Column.sql, List.length_append, List.length_cons]
  omega

def readMoreColumns : List Char → Option (List Column)
  | [] => some []
  | ',' :: ' ' :: s =>
      match _ : readColumn s with
      | some (c, rest) => (readMoreColumns rest).map (c :: ·)
      | none => none
  | _ => none
termination_by s => s.length
decreasing_by
  have hlt := length_of_readColumn ‹_›
  simp only [List.length_cons]
  omega

def readRow : List Char → Option (List Column)
  | [] => some []
  | s => (readColumn s).bind fun p => (readMoreColumns p.2).map (p.1 :: ·)

theorem readMoreColumns_column {s rest : List Char} {c : Column}
    (h : readColumn s = some (c, rest)) :
    readMoreColumns (',' :: ' ' :: s) = (readMoreColumns rest).map (c :: ·) := by
  rw [readMoreColumns]
  split
  · next h₁ =>
    rw [h] at h₁
    cases h₁
    rfl
  · next h₁ =>
    rw [h] at h₁
    contradiction

theorem head?_moreColumns (columns : List Column) :
    (columns.flatMap fun c => ',' :: ' ' :: c.sql).head? ≠ some '\x60' := by
  cases columns <;> simp

theorem readMoreColumns_eq_some_iff {text : List Char} {columns : List Column} :
    readMoreColumns text = some columns ↔ text = columns.flatMap fun c => ',' :: ' ' :: c.sql := by
  constructor
  · intro h
    fun_induction readMoreColumns text generalizing columns with
    | case1 =>
      cases h
      rfl
    | case2 s c rest hc ih =>
      obtain ⟨more, hmore, rfl⟩ := Option.map_eq_some_iff.1 h
      obtain ⟨rfl, -⟩ := readColumn_eq_some_iff.1 hc
      rw [ih hmore]
      simp
    | case3 => contradiction
    | case4 => contradiction
  · rintro rfl
    induction columns with
    | nil => simp [readMoreColumns]
    | cons c more ih =>
      have hc := (readColumn_eq_some_iff (c := c)).2 ⟨rfl, head?_moreColumns more⟩
      rw [List.flatMap_cons]
      exact (readMoreColumns_column hc).trans (by rw [ih, Option.map_some])

theorem readRow_eq_some_iff {text : List Char} {columns : List Column} :
    readRow text = some columns ↔ text = commaSeparated (columns.map Column.sql) := by
  cases text with
  | nil =>
    cases columns <;> simp [readRow, commaSeparated_cons, Column.sql, identifier, quoted]
  | cons first rest =>
    rw [readRow.eq_2 _ (by simp), Option.bind_eq_some_iff]
    constructor
    · rintro ⟨⟨c, tail⟩, hc, hcolumns⟩
      obtain ⟨more, hmore, rfl⟩ := Option.map_eq_some_iff.1 hcolumns
      have htail := readMoreColumns_eq_some_iff.1 hmore
      rw [List.map_cons, commaSeparated_cons, List.flatMap_map, ← htail]
      exact (readColumn_eq_some_iff.1 hc).1
    · intro h
      cases columns with
      | nil => contradiction
      | cons c more =>
        rw [List.map_cons, commaSeparated_cons, List.flatMap_map] at h
        refine ⟨(c, _), readColumn_eq_some_iff.2 ⟨h, head?_moreColumns more⟩, ?_⟩
        rw [readMoreColumns_eq_some_iff.2 rfl, Option.map_some]

/-- Nothing gets out of quotation marks: names, texts and rows of columns are read back as they
were written, and from nothing else. -/
theorem quotations_exact (text tail : List Char) (s : String) (columns : List Column) :
    (readQuoted '\x60' text = some (s.toList, tail) ↔
      text = identifier s ++ tail ∧ tail.head? ≠ some '\x60') ∧
    (readQuoted '\x27' text = some (s.toList, tail) ↔
      text = (Literal.text s).sql ++ tail ∧ tail.head? ≠ some '\x27') ∧
    (readRow text = some columns ↔ text = commaSeparated (columns.map Column.sql)) :=
  ⟨readQuoted_eq_some_iff, readQuoted_eq_some_iff, readRow_eq_some_iff⟩

end RelationalSelect
