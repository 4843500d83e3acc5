/-!
Text between two delimiters: a delimiter inside the text is written twice. A reader that takes
doubled delimiters for one stops exactly at the end of what was written
(`readQuoted_quoted_append`), so no text can end its own quotation. Items in a row have a comma
and a space between each two.
-/

set_option autoImplicit false

namespace RelationalSelect

def doubled (q : Char) : List Char → List Char
  | [] => []
  | c :: s => if c = q then q :: q :: doubled q s else c :: doubled q s

def quoted (q : Char) (s : List Char) : List Char := q :: doubled q s ++ [q]

/-- Reads up to the first delimiter that stands alone. -/
def readDoubled (q : Char) : List Char → Option (List Char × List Char)
  | [] => none
  | [c] => if c = q then some ([], []) else none
  | c :: d :: s =>
      if c = q then
        if d = q then (readDoubled q s).map fun p => (q :: p.1, p.2) else some ([], d :: s)
      else (readDoubled q (d :: s)).map fun p => (c :: p.1, p.2)

def readQuoted (q : Char) : List Char → Option (List Char × List Char)
  | [] => none
  | c :: s => if c = q then readDoubled q s else none

theorem readDoubled_cons_of_ne {q c : Char} (h : c ≠ q) (s : List Char) :
    readDoubled q (c :: s) = (readDoubled q s).map fun p => (c :: p.1, p.2) := by
  cases s <;> simp [readDoubled, h]

theorem readDoubled_delimiter_append {q : Char} {tail : List Char} (h : tail.head? ≠ some q) :
    readDoubled q (q :: tail) = some ([], tail) := by
  cases tail with
  | nil => simp [readDoubled]
  | cons d s => simp_all [readDoubled]

theorem readDoubled_doubled_append {q : Char} (s : List Char) {tail : List Char}
    (h : tail.head? ≠ some q) :
    readDoubled q (doubled q s ++ q :: tail) = some (s, tail) := by
  induction s with
  | nil => exact readDoubled_delimiter_append h
  | cons c s ih =>
    by_cases hc : c = q
    · subst hc
      simp [doubled, readDoubled, ih]
    · simp [doubled, hc, readDoubled_cons_of_ne hc, ih]

theorem readQuoted_quoted_append {q : Char} (s : List Char) {tail : List Char}
    (h : tail.head? ≠ some q) : readQuoted q (quoted q s ++ tail) = some (s, tail) := by
  simp [quoted, readQuoted, readDoubled_doubled_append s h]

def commaSeparated (items : List (List Char)) : List Char := [',', ' '].intercalate items

@[simp] theorem commaSeparated_nil : commaSeparated [] = [] := rfl

theorem intercalate_cons_flatMap {α : Type} (sep x : List α) (items : List (List α)) :
    sep.intercalate (x :: items) = x ++ items.flatMap (sep ++ ·) := by
  induction items generalizing x with
  | nil => simp
  | cons y items ih => simp [List.intercalate_cons_cons, ih]

theorem commaSeparated_cons (x : List Char) (items : List (List Char)) :
    commaSeparated (x :: items) = x ++ items.flatMap fun y => ',' :: ' ' :: y :=
  intercalate_cons_flatMap _ x items

end RelationalSelect
