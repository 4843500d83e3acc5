import RelationalSelect.Query.Text
import RelationalSelect.Text.Shown

set_option autoImplicit false

namespace RelationalSelect

inductive Event where
  | named (id : Identity) (base name : String)
  | assigned (names : List String)
  | emitting (join : Join)
  /-- The condition of a join went to the clause of a later source. -/
  | conditionMoved (source : Source)
  | compiled (query : Query)
  deriving DecidableEq

inductive Level where
  | debug | trace
  deriving DecidableEq

def Level.name : Level → String
  | .debug => "debug"
  | .trace => "trace"

def Identity.text (id : Identity) : List Char :=
  "NodeId(".toList ++ Nat.toDigits 10 id.index ++ [')']

namespace Event

def level : Event → Level
  | .named .. | .assigned _ => .debug
  | .emitting _ | .conditionMoved _ | .compiled _ => .trace

def text : Event → List Char
  | .named id base name =>
      "Named occurrence ".toList ++ id.text ++ " of \x60".toList ++ base.toList ++
        "\x60 as \x60".toList ++ name.toList ++ ['\x60']
  | .assigned names =>
      "Assigned ".toList ++ Nat.toDigits 10 names.length ++ " name(s): ".toList ++
        escapedList (names.map String.toList)
  | .emitting join => "Emitting ".toList ++ join.sql { pretty := false }
  | .conditionMoved source => "Join condition moved to ".toList ++ source.sql
  | .compiled query =>
      "Compiled ".toList ++ Nat.toDigits 10 query.joins.length ++ " join(s): ".toList ++
        query.sql { pretty := false }

def message (e : Event) : String := String.ofList e.text

def line (e : Event) : Level × String := (e.level, e.message)

end Event

theorem bind_eq_ok_iff {ε α β : Type} {x : Except ε α} {f : α → Except ε β} {b : β} :
    x >>= f = .ok b ↔ ∃ a, x = .ok a ∧ f a = .ok b := by
  cases x with
  | error e => simp [bind, Except.bind]
  | ok a => simp [bind, Except.bind]

structure Logged (α : Type) where
  journal : List Event
  outcome : Except Error α

namespace Logged

variable {α β : Type}

def bind (x : Logged α) (f : α → Logged β) : Logged β :=
  match x.outcome with
  | .ok a =>
      let y := f a
      ⟨x.journal ++ y.journal, y.outcome⟩
  | .error e => ⟨x.journal, .error e⟩

instance : Monad Logged where
  pure a := ⟨[], .ok a⟩
  bind := bind

def log (x : Logged α) : List (Level × String) := x.journal.map Event.line

def ofExcept (x : Except Error α) : Logged α := ⟨[], x⟩

instance : MonadLift (Except Error) Logged := ⟨ofExcept⟩

def record (e : Event) : Logged Unit := ⟨[e], .ok ()⟩

def malformed (cause : Malformation) : Logged α := ⟨[], .error (.malformedTree cause)⟩

@[simp] theorem liftM_eq (x : Except Error α) : (liftM x : Logged α) = ofExcept x := rfl

@[simp] theorem outcome_ofExcept (x : Except Error α) : (ofExcept x).outcome = x := rfl

@[simp] theorem outcome_record (e : Event) : (record e).outcome = .ok () := rfl

@[simp] theorem outcome_malformed (cause : Malformation) :
    (malformed cause : Logged α).outcome = .error (.malformedTree cause) := rfl

@[simp] theorem outcome_pure (a : α) : (pure a : Logged α).outcome = .ok a := rfl

@[simp] theorem journal_ofExcept (x : Except Error α) : (ofExcept x).journal = [] := rfl

@[simp] theorem journal_record (e : Event) : (record e).journal = [e] := rfl

@[simp] theorem journal_malformed (cause : Malformation) :
    (malformed cause : Logged α).journal = [] := rfl

@[simp] theorem journal_pure (a : α) : (pure a : Logged α).journal = [] := rfl

@[simp] theorem outcome_bind (x : Logged α) (f : α → Logged β) :
    (x >>= f).outcome = x.outcome >>= fun a => (f a).outcome := by
  change (bind x f).outcome = _
  unfold bind
  cases x.outcome <;> rfl

theorem journal_bind (x : Logged α) (f : α → Logged β) : (x >>= f).journal = x.journal ++
    match x.outcome with
    | .ok a => (f a).journal
    | .error _ => [] := by
  change (bind x f).journal = _
  unfold bind
  cases x.outcome <;> simp

theorem ok_bind (journal : List Event) (a : α) (f : α → Logged β) :
    (⟨journal, .ok a⟩ : Logged α) >>= f = ⟨journal ++ (f a).journal, (f a).outcome⟩ := rfl

theorem error_bind (journal : List Event) (e : Error) (f : α → Logged β) :
    (⟨journal, .error e⟩ : Logged α) >>= f = ⟨journal, .error e⟩ := rfl

theorem eq_of_outcome {x : Logged α} {outcome : Except Error α} (h : x.outcome = outcome) :
    x = ⟨x.journal, outcome⟩ := by rw [← h]

instance : LawfulMonad Logged := LawfulMonad.mk' Logged
  (by
    intro α x
    change bind x _ = x
    unfold bind
    rcases x with ⟨journal, outcome⟩
    cases outcome <;> simp)
  (by
    intro α β a f
    change bind ⟨[], .ok a⟩ f = f a
    simp [bind])
  (by
    intro α β γ x f g
    change bind (bind x f) g = bind x fun a => bind (f a) g
    rcases x with ⟨journal, outcome⟩
    cases outcome with
    | error e => rfl
    | ok a =>
      simp only [bind]
      cases (f a).outcome <;> simp)

@[simp] theorem outcome_map (f : α → β) (x : Logged α) :
    (f <$> x).outcome = f <$> x.outcome := by
  rw [← bind_pure_comp, ← bind_pure_comp, outcome_bind]
  rfl

@[simp] theorem journal_map (f : α → β) (x : Logged α) : (f <$> x).journal = x.journal := by
  rw [← bind_pure_comp, journal_bind]
  cases x.outcome <;> simp

end Logged

end RelationalSelect
