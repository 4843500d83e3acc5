import Mathlib.Data.List.TakeWhile
import RelationalSelect.Proofs.Reading.Numerals
import RelationalSelect.Proofs.Reading.Quotations

/-!
Taking text to tokens.

A token is a quoted name, a quoted text, or a word: a run of letters, digits, points and dashes, a
run of the signs of operators, or any other single character. Blanks only separate, so a statement
has the same tokens on one line and on many.
-/

set_option autoImplicit false

namespace RelationalSelect

inductive Token where
  | word (s : List Char)
  | name (s : List Char)
  | text (s : List Char)
  deriving DecidableEq

def isBlank (c : Char) : Bool := c == ' ' || c == '\n'

def isLetter (c : Char) : Bool := c.isAlphanum || c == '.' || c == '-'

def isSign (c : Char) : Bool := c == '<' || c == '=' || c == '>'

def continues (c d : Char) : Bool := isLetter c && isLetter d || isSign c && isSign d

def readToken (c : Char) (s : List Char) : Option (Token × List Char) :=
  if c = '\x60' then (readQuoted c (c :: s)).map fun p => (.name p.1, p.2)
  else if c = '\x27' then (readQuoted c (c :: s)).map fun p => (.text p.1, p.2)
  else some (.word (c :: s.takeWhile (continues c)), s.dropWhile (continues c))

theorem length_of_readToken {c : Char} {s rest : List Char} {t : Token}
    (h : readToken c s = some (t, rest)) : rest.length ≤ s.length := by
  have hquoted : ∀ p, readQuoted c (c :: s) = some p → p.2.length ≤ s.length := by
    intro p hp
    obtain ⟨htext, -⟩ := readQuoted_eq_some_iff.1 hp
    have hlength := congrArg List.length htext
    simp only [quoted, List.length_cons, List.length_append] at hlength
    omega
  unfold readToken at h
  split at h
  · obtain ⟨p, hp, heq⟩ := Option.map_eq_some_iff.1 h
    cases heq
    exact hquoted p hp
  · split at h
    · obtain ⟨p, hp, heq⟩ := Option.map_eq_some_iff.1 h
      cases heq
      exact hquoted p hp
    · cases h
      exact List.length_dropWhile_le _ _

def lex : List Char → Option (List Token)
  | [] => some []
  | c :: s =>
      if isBlank c then lex s
      else match _ : readToken c s with
        | some (t, rest) => (lex rest).map (t :: ·)
        | none => none
termination_by s => s.length
decreasing_by
  · simp
  · have hle := length_of_readToken ‹_›
    simp only [List.length_cons]
    omega

@[simp] theorem lex_nil : lex [] = some [] := by rw [lex]

theorem lex_blank {c : Char} (h : isBlank c = true) (s : List Char) : lex (c :: s) = lex s := by
  rw [lex, if_pos h]

theorem lex_token {c : Char} {s rest : List Char} {t : Token} (hc : isBlank c = false)
    (h : readToken c s = some (t, rest)) : lex (c :: s) = (lex rest).map (t :: ·) := by
  rw [lex, if_neg (by simp [hc])]
  split
  · next h₁ =>
    rw [h] at h₁
    cases h₁
    rfl
  · next h₁ =>
    rw [h] at h₁
    contradiction

/-- Where a token that has begun before must end. -/
def isEnd (c : Char) : Bool := isBlank c || c == ')' || c == ','

theorem isEnd_cases {c : Char} (h : isEnd c = true) :
    c = ' ' ∨ c = '\n' ∨ c = ')' ∨ c = ',' := by
  simpa [isEnd, isBlank, or_assoc] using h

def isMark (c : Char) : Bool := c == '(' || c == ')' || c == ',' || c == '*'

theorem isMark_cases {c : Char} (h : isMark c = true) :
    c = '(' ∨ c = ')' ∨ c = ',' ∨ c = '*' := by
  simpa [isMark, or_assoc] using h

theorem continues_of_isEnd (c : Char) {d : Char} (h : isEnd d = true) : continues c d = false := by
  have hd : isLetter d = false ∧ isSign d = false := by
    rcases isEnd_cases h with rfl | rfl | rfl | rfl <;> decide
  simp [continues, hd.1, hd.2]

theorem ne_of_class {c d : Char} (hc : isLetter c = true ∨ isSign c = true)
    (hd : isLetter d = false ∧ isSign d = false) : c ≠ d := by
  rintro rfl
  simp [hd.1, hd.2] at hc

theorem readToken_word {c : Char} {s rest : List Char}
    (hname : c ≠ '\x60') (htext : c ≠ '\x27') (hs : ∀ d ∈ s, continues c d = true)
    (hrest : ∀ d, rest.head? = some d → continues c d = false) :
    readToken c (s ++ rest) = some (.word (c :: s), rest) := by
  unfold readToken
  rw [if_neg hname, if_neg htext, List.takeWhile_append_of_pos hs, List.dropWhile_append_of_pos hs]
  cases rest with
  | nil => simp
  | cons d rest => simp [hrest d rfl]

theorem lex_name {s rest : List Char} (h : rest.head? ≠ some '\x60') :
    lex (quoted '\x60' s ++ rest) = (lex rest).map (.name s :: ·) := by
  refine lex_token rfl ?_
  change (readQuoted '\x60' (quoted '\x60' s ++ rest)).map _ = _
  rw [readQuoted_quoted_append s h]
  rfl

theorem lex_text {s rest : List Char} (h : rest.head? ≠ some '\x27') :
    lex (quoted '\x27' s ++ rest) = (lex rest).map (.text s :: ·) := by
  refine lex_token rfl ?_
  change (readQuoted '\x27' (quoted '\x27' s ++ rest)).map _ = _
  rw [readQuoted_quoted_append s h]
  rfl

/-- Text that comes to some tokens wherever it ends. -/
def Lexes (s : List Char) (ts : List Token) : Prop :=
  ∀ rest, (∀ c, rest.head? = some c → isEnd c = true) → lex (s ++ rest) = (lex rest).map (ts ++ ·)

namespace Lexes

variable {s t : List Char} {ts us : List Token}

theorem lex_eq (h : Lexes s ts) : lex s = some ts := by
  simpa using h [] (by simp)

theorem nil : Lexes [] [] := fun rest _ => by simp

theorem blank {c : Char} (hc : isBlank c = true) (h : Lexes t us) : Lexes (c :: t) us := by
  intro rest hrest
  rw [List.cons_append, lex_blank hc]
  exact h rest hrest

theorem append {c : Char} (hc : isEnd c = true) (hs : Lexes s ts) (ht : Lexes (c :: t) us) :
    Lexes (s ++ c :: t) (ts ++ us) := by
  intro rest hrest
  have hstart : ∀ d, (c :: t ++ rest).head? = some d → isEnd d = true := by
    rintro d ⟨⟩
    exact hc
  rw [List.append_assoc, hs _ hstart, ht rest hrest, Option.map_map]
  congr 1
  funext vs
  exact (List.append_assoc ..).symm

theorem row {α : Type} {c : Char} (hc : isEnd c = true) {f : α → List Char} {g : α → List Token}
    (h : ∀ x, Lexes (c :: f x) (g x)) (hs : Lexes s ts) (xs : List α) :
    Lexes (s ++ xs.flatMap fun x => c :: f x) (ts ++ xs.flatMap g) := by
  induction xs generalizing s ts with
  | nil => simpa using hs
  | cons x xs ih =>
    rw [List.flatMap_cons, List.flatMap_cons, ← List.append_assoc, ← List.append_assoc]
    exact ih (.append hc hs (h x))

theorem mark {c : Char} (hc : isMark c = true) (ht : Lexes t us) :
    Lexes (c :: t) (.word [c] :: us) := by
  intro rest hrest
  obtain ⟨hblank, hname, htext, halone⟩ : isBlank c = false ∧ c ≠ '\x60' ∧ c ≠ '\x27' ∧
      ∀ d, continues c d = false := by
    rcases isMark_cases hc with rfl | rfl | rfl | rfl <;>
      exact ⟨rfl, by decide, by decide, fun _ => rfl⟩
  have hread : readToken c ([] ++ (t ++ rest)) = some (.word [c], t ++ rest) :=
    readToken_word hname htext (by simp) fun d _ => halone d
  rw [List.nil_append] at hread
  rw [List.cons_append, lex_token hblank hread, ht rest hrest, Option.map_map]
  rfl

theorem word {c : Char} {s : List Char}
    (h : (isLetter c = true ∧ ∀ d ∈ s, isLetter d = true) ∨
      (isSign c = true ∧ ∀ d ∈ s, isSign d = true)) : Lexes (c :: s) [.word (c :: s)] := by
  intro rest hrest
  have hc : isLetter c = true ∨ isSign c = true := h.imp And.left And.left
  have hblank : isBlank c = false := by
    simp [isBlank, ne_of_class hc (d := ' ') (by decide), ne_of_class hc (d := '\n') (by decide)]
  have hs : ∀ d ∈ s, continues c d = true := by
    intro d hd
    rcases h with ⟨hc, hs⟩ | ⟨hc, hs⟩ <;> simp [continues, hc, hs d hd]
  have hread := readToken_word (ne_of_class hc (by decide)) (ne_of_class hc (by decide)) hs
    fun d hd => continues_of_isEnd c (hrest d hd)
  rw [List.cons_append, lex_token hblank hread]
  rfl

theorem name (s : List Char) : Lexes (quoted '\x60' s) [.name s] :=
  fun _ hrest => lex_name fun h => absurd (hrest _ h) (by decide)

theorem text (s : List Char) : Lexes (quoted '\x27' s) [.text s] :=
  fun _ hrest => lex_text fun h => absurd (hrest _ h) (by decide)

theorem qualified (s t : List Char) :
    Lexes (quoted '\x60' s ++ '.' :: quoted '\x60' t) [.name s, .word ['.'], .name t] := by
  intro rest hrest
  have hpoint : readToken '.' ([] ++ (quoted '\x60' t ++ rest)) =
      some (.word ['.'], quoted '\x60' t ++ rest) := by
    refine readToken_word (by decide) (by decide) (by simp) ?_
    rintro d ⟨⟩
    decide
  rw [List.nil_append] at hpoint
  rw [List.append_assoc, lex_name (by simp), List.cons_append, lex_token rfl hpoint,
    name t rest hrest, Option.map_map, Option.map_map]
  rfl

end Lexes

end RelationalSelect
