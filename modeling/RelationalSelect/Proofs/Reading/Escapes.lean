import Mathlib.Tactic.SplitIfs
import RelationalSelect.Text.Shown

/-!
Reading shown texts back.

The reader has no tables of characters: it takes a code for its character wherever one is given, and
any other character for itself. So what it gets back does not depend on which ones show themselves.
-/

set_option autoImplicit false

namespace RelationalSelect

def codeDigit? (c : Char) : Option Nat :=
  if c.isDigit then some (c.toNat - 48)
  else if 'a' ≤ c ∧ c ≤ 'f' then some (c.toNat - 87)
  else none

def unescape? : Char → Option Char
  | '0' => some '\x00'
  | 't' => some '\t'
  | 'r' => some '\r'
  | 'n' => some '\n'
  | '\x5c' => some '\x5c'
  | '\x22' => some '\x22'
  | _ => none

/-- Reads a text from within, up to the quotation mark that ends it. A number stands for the digits
of a code that have been read. -/
def readShown : Option Nat → List Char → Option (List Char × List Char)
  | _, [] => none
  | some code, c :: s =>
      if c = '\x7d' then (readShown none s).map fun p => (Char.ofNat code :: p.1, p.2)
      else (codeDigit? c).bind fun d => readShown (some (16 * code + d)) s
  | none, '\x5c' :: 'u' :: '\x7b' :: s => readShown (some 0) s
  | none, '\x5c' :: letter :: s =>
      (unescape? letter).bind fun c => (readShown none s).map fun p => (c :: p.1, p.2)
  | none, c :: s =>
      if c = '\x22' then some ([], s)
      else (readShown none s).map fun p => (c :: p.1, p.2)

theorem exists_of_map_cons {x : Option (List Char × List Char)} {c : Char} {t rest : List Char}
    (h : (x.map fun p => (c :: p.1, p.2)) = some (t, rest)) : ∃ t₁, x = some (t₁, rest) := by
  obtain ⟨⟨t₁, rest₁⟩, hx, heq⟩ := Option.map_eq_some_iff.1 h
  cases heq
  exact ⟨t₁, hx⟩

theorem length_of_readShown {code : Option Nat} {s t rest : List Char}
    (h : readShown code s = some (t, rest)) : rest.length < s.length := by
  fun_induction readShown code s generalizing t with
  | case1 => contradiction
  | case2 code s ih =>
    obtain ⟨t₁, h₁⟩ := exists_of_map_cons h
    exact Nat.lt_succ_of_lt (ih h₁)
  | case3 code c s _ ih =>
    obtain ⟨d, -, hd⟩ := Option.bind_eq_some_iff.1 h
    exact Nat.lt_succ_of_lt (ih d hd)
  | case4 s ih =>
    have hlt := ih h
    simp only [List.length_cons]
    omega
  | case5 letter s _ ih =>
    obtain ⟨c, -, hc⟩ := Option.bind_eq_some_iff.1 h
    obtain ⟨t₁, h₁⟩ := exists_of_map_cons hc
    exact Nat.lt_succ_of_lt (Nat.lt_succ_of_lt (ih h₁))
  | case6 s =>
    cases h
    exact Nat.lt_succ_self _
  | case7 c s _ _ _ ih =>
    obtain ⟨t₁, h₁⟩ := exists_of_map_cons h
    exact Nat.lt_succ_of_lt (ih h₁)

theorem codeDigit?_digitChar :
    ∀ d < 16, d.digitChar ≠ '\x7d' ∧ codeDigit? d.digitChar = some d := by decide

theorem readShown_digit {d : Nat} (hd : d < 16) (code : Nat) (s : List Char) :
    readShown (some code) (d.digitChar :: s) = readShown (some (16 * code + d)) s := by
  obtain ⟨hne, hread⟩ := codeDigit?_digitChar d hd
  rw [readShown, if_neg hne, hread]
  rfl

theorem readShown_toDigits (n : Nat) (s : List Char) :
    readShown (some 0) (Nat.toDigits 16 n ++ s) = readShown (some n) s := by
  induction n using Nat.strongRecOn generalizing s with
  | ind n ih =>
    rw [Nat.toDigits_eq_if (by decide)]
    split
    · next hlt =>
      rw [List.singleton_append, readShown_digit hlt, Nat.mul_zero, Nat.zero_add]
    · next hge =>
      rw [List.append_assoc, ih (n / 16) (by omega), List.singleton_append,
        readShown_digit (Nat.mod_lt n (by decide)), Nat.div_add_mod]

theorem readShown_codeText (c : Char) (s : List Char) :
    readShown none (codeText c ++ s) = (readShown none s).map fun p => (c :: p.1, p.2) := by
  simp only [codeText, List.cons_append, List.append_assoc, readShown, readShown_toDigits]
  simp

theorem unescape?_of_escapeLetter? {c letter : Char} (h : escapeLetter? c = some letter) :
    letter ≠ 'u' ∧ unescape? letter = some c := by
  unfold escapeLetter? at h
  split_ifs at h with hc hc hc hc hc <;> cases h
  · exact ⟨by decide, congrArg some hc.symm⟩
  · exact ⟨by decide, congrArg some hc.symm⟩
  · exact ⟨by decide, congrArg some hc.symm⟩
  · exact ⟨by decide, congrArg some hc.symm⟩
  · rcases hc with rfl | rfl <;> decide

theorem ne_of_escapeLetter? {c : Char} (h : escapeLetter? c = none) :
    c ≠ '\x5c' ∧ c ≠ '\x22' := by
  constructor
  · rintro rfl
    contradiction
  · rintro rfl
    contradiction

theorem readShown_letter {letter c : Char} (hne : letter ≠ 'u') (h : unescape? letter = some c)
    (s : List Char) : readShown none ('\x5c' :: letter :: s) =
      (readShown none s).map fun p => (c :: p.1, p.2) := by
  rw [readShown, h]
  · rfl
  · simp [hne]

theorem readShown_escapedChar (c : Char) (s : List Char) :
    readShown none (escapedChar c ++ s) = (readShown none s).map fun p => (c :: p.1, p.2) := by
  unfold escapedChar
  split
  · next letter h =>
    obtain ⟨hne, hc⟩ := unescape?_of_escapeLetter? h
    exact readShown_letter hne hc s
  · next h =>
    obtain ⟨hslash, hmark⟩ := ne_of_escapeLetter? h
    split
    · rw [List.singleton_append, readShown, if_neg hmark] <;> simp [hslash]
    · exact readShown_codeText c s

theorem readShown_escaped (t s : List Char) :
    readShown none (t.flatMap escapedChar ++ '\x22' :: s) = some (t, s) := by
  induction t with
  | nil => simp [readShown]
  | cons c t ih => simp [readShown_escapedChar, ih]

def readMoreShown : List Char → Option (List (List Char))
  | [']'] => some []
  | ',' :: ' ' :: '\x22' :: s =>
      match _ : readShown none s with
      | some (t, rest) => (readMoreShown rest).map (t :: ·)
      | none => none
  | _ => none
termination_by s => s.length
decreasing_by
  have hlt := length_of_readShown ‹_›
  simp only [List.length_cons]
  omega

def readShownList : List Char → Option (List (List Char))
  | ['[', ']'] => some []
  | '[' :: '\x22' :: s =>
      (readShown none s).bind fun p => (readMoreShown p.2).map (p.1 :: ·)
  | _ => none

theorem readMoreShown_shown {s t rest : List Char} (h : readShown none s = some (t, rest)) :
    readMoreShown (',' :: ' ' :: '\x22' :: s) = (readMoreShown rest).map (t :: ·) := by
  rw [readMoreShown]
  split
  · next h₁ =>
    rw [h] at h₁
    cases h₁
    rfl
  · next h₁ =>
    rw [h] at h₁
    contradiction

theorem escaped_append (t s : List Char) :
    escaped t ++ s = '\x22' :: (t.flatMap escapedChar ++ '\x22' :: s) := by simp [escaped]

theorem readMoreShown_escaped (ts : List (List Char)) :
    readMoreShown ((ts.flatMap fun t => ',' :: ' ' :: escaped t) ++ [']']) = some ts := by
  induction ts with
  | nil => simp [readMoreShown]
  | cons t ts ih =>
    rw [List.flatMap_cons, List.append_assoc, List.cons_append, List.cons_append, escaped_append,
      readMoreShown_shown (readShown_escaped t _), ih]
    rfl

/-- Texts are read back from their list as they are, whatever is in them. -/
theorem readShownList_escapedList (ts : List (List Char)) :
    readShownList (escapedList ts) = some ts := by
  cases ts with
  | nil => rfl
  | cons t ts =>
    rw [escapedList, List.map_cons, commaSeparated_cons, List.flatMap_map, List.cons_append,
      List.append_assoc, escaped_append, readShownList, readShown_escaped, Option.bind_some,
      readMoreShown_escaped]
    rfl

example : String.ofList (escapedList ["say \x22a\x22".toList, "b\nc".toList]) =
    "[\x22say \x5c\x22a\x5c\x22\x22, \x22b\x5cnc\x22]" := by decide

end RelationalSelect
