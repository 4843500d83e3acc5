import RelationalSelect.Proofs.Reading.Tokens

set_option autoImplicit false

namespace RelationalSelect

def isIntegral (c : Char) : Bool := c.isDigit || c == '-'

def Literal.token : Literal → Token
  | .text value => .text value.toList
  | v => .word v.sql

/-- A literal that stands for all those with the same text. -/
def Literal.canonical : Literal → Literal
  | .double x => .double x.canonical
  | v => v

def readLiteral : Token → Option Literal
  | .name _ => none
  | .text s => some (.text (String.ofList s))
  | .word s =>
      if s.all isIntegral then (readInteger s).map .integer
      else match readDouble s with
        | some x => some (.double x)
        | none => [.null, .boolean true, .boolean false].find? fun v => v.sql == s

def IsLetters (s : List Char) : Prop := ∀ c ∈ s, isLetter c = true

theorem IsLetters.append {s t : List Char} (hs : IsLetters s) (ht : IsLetters t) :
    IsLetters (s ++ t) := List.forall_mem_append.2 ⟨hs, ht⟩

theorem IsLetters.cons {c : Char} {s : List Char} (hc : isLetter c = true) (hs : IsLetters s) :
    IsLetters (c :: s) := List.forall_mem_cons.2 ⟨hc, hs⟩

theorem IsDigits.isLetters {s : List Char} (h : IsDigits s) : IsLetters s := fun c hc => by
  simp [isLetter, Char.isAlphanum, h c hc]

theorem isIntegral_integerText (n : Int) : (integerText n).all isIntegral = true := by
  have hdigits : (Nat.toDigits 10 n.natAbs).all isIntegral = true :=
    List.all_eq_true.2 fun c hc => by simp [isIntegral, isDigits_toDigits _ c hc]
  unfold integerText
  split
  · rw [List.all_cons, hdigits]
    rfl
  · exact hdigits

theorem isLetters_integerText (n : Int) : IsLetters (integerText n) := by
  unfold integerText
  split
  · exact .cons rfl (isDigits_toDigits _).isLetters
  · exact (isDigits_toDigits _).isLetters

theorem isLetters_digitsText {digits : List Char} (h : IsDigits digits) (lead : Int) :
    IsLetters (Literal.doubleLayout.digitsText digits lead) := by
  have htake n : IsLetters (digits.take n) := fun c hc => h.isLetters c (List.mem_of_mem_take hc)
  have hdrop n : IsLetters (digits.drop n) := fun c hc => h.isLetters c (List.mem_of_mem_drop hc)
  have hzeros n : IsLetters (List.replicate n '0') := (isDigits_replicate n).isLetters
  unfold Layout.digitsText
  split
  · unfold Layout.positional
    split
    · exact .cons rfl (.cons rfl ((hzeros _).append h.isLetters))
    · refine ((htake _).append (hzeros _)).append (.cons rfl ?_)
      split
      · exact isDigits_zero.isLetters
      · exact hdrop _
  · refine ((htake 1).append ?_).append (.cons rfl (isLetters_integerText lead))
    split
    · exact List.forall_mem_nil _
    · exact .cons rfl (hdrop 1)

theorem not_isIntegral_digitsText (digits : List Char) (lead : Int) :
    (Literal.doubleLayout.digitsText digits lead).all isIntegral = false := by
  unfold Layout.digitsText Layout.positional Layout.scientific
  split
  · split <;> simp [isIntegral]
  · simp [isIntegral, Literal.doubleLayout]

theorem isLetters_text (x : Double) : IsLetters (Literal.doubleLayout.text x) := by
  have hmagnitude : IsLetters (Literal.doubleLayout.magnitudeText x) := by
    unfold Layout.magnitudeText
    split
    · exact List.all_eq_true.1 rfl
    · split
      · exact isLetters_digitsText isDigits_zero 0
      · exact isLetters_digitsText (isDigits_toDigits _) _
  unfold Layout.text
  split
  · exact List.all_eq_true.1 rfl
  · split
    · exact .cons rfl hmagnitude
    · exact hmagnitude

theorem not_isIntegral_text (x : Double) :
    (Literal.doubleLayout.text x).all isIntegral = false := by
  have hmagnitude : (Literal.doubleLayout.magnitudeText x).all isIntegral = false := by
    unfold Layout.magnitudeText
    split
    · rfl
    · split
      · exact not_isIntegral_digitsText _ 0
      · exact not_isIntegral_digitsText _ _
  unfold Layout.text
  split
  · rfl
  · split
    · rw [List.all_cons, hmagnitude, Bool.and_false]
    · exact hmagnitude

theorem readLiteral_token (v : Literal) : readLiteral v.token = some v.canonical := by
  cases v with
  | null => rfl
  | boolean value => cases value <;> rfl
  | integer n =>
    simp [Literal.token, Literal.sql, readLiteral, isIntegral_integerText, readInteger_integerText,
      Literal.canonical]
  | double x =>
    simp [Literal.token, Literal.sql, readLiteral, not_isIntegral_text, readDouble_text,
      Literal.canonical]
  | text s => simp [Literal.token, readLiteral, Literal.canonical]

theorem Lexes.letters {s : List Char} (hne : s ≠ []) (h : IsLetters s) : Lexes s [.word s] := by
  cases s with
  | nil => contradiction
  | cons c s => exact .word (.inl (List.forall_mem_cons.1 h))

theorem lexes_literal (v : Literal) : Lexes v.sql [v.token] := by
  cases v with
  | null => exact .letters (by decide) (List.all_eq_true.1 rfl)
  | boolean value => cases value <;> exact .letters (by decide) (List.all_eq_true.1 rfl)
  | integer n => exact .letters (integerText_ne_nil n) (isLetters_integerText n)
  | double x =>
    refine .letters (fun hnil : Literal.doubleLayout.text x = [] => ?_) (isLetters_text x)
    have hmark := not_isIntegral_text x
    rw [hnil] at hmark
    contradiction
  | text s => exact .text _

end RelationalSelect
