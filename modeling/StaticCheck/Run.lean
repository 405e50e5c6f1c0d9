import StaticCheck.Expr
import StaticCheck.Metrics
import StaticCheck.Scope

/-! # Check runs

A run is what checking a part of a program yields: an outcome, what it counted, and the events on
the way.  Runs are put together in sequence; the first failure ends a sequence, and what was counted
and recorded before it stays. -/

namespace StaticCheck

/-! ### Events -/

/-- Something that happened during a check. -/
inductive Event where
  /-- The type of an expression was found. -/
  | typed (e : Expr) (ty : Ty)
  | declared (name : String) (ty : Ty) (depth : Nat)
  | entered (depth bindings : Nat)
  | left (depth : Nat)
  /-- The whole program was checked. -/
  | completed (metrics : Metrics)

/-! ### Runs -/

/-- The result of checking a part of a program. -/
structure Run (α : Type) where
  outcome : Except SemanticError α
  tally : Metrics
  events : List Event

namespace Run

variable {α β : Type}

def succeed (a : α) : Run α := ⟨.ok a, 0, []⟩

def fail (e : SemanticError) : Run α := ⟨.error e, 0, []⟩

/-- One run and then another, unless the first fails. -/
def andThen (first : Run α) (next : α → Run β) : Run β :=
  match first.outcome with
  | .error e => ⟨.error e, first.tally, first.events⟩
  | .ok a =>
    let second := next a
    ⟨second.outcome, first.tally + second.tally, first.events ++ second.events⟩

instance : Monad Run where
  pure := succeed
  bind := andThen

@[simp] theorem andThen_succeed (a : α) (next : α → Run β) : (succeed a).andThen next = next a := by
  simp [andThen, succeed]

theorem andThen_assoc {γ : Type} (run : Run α) (f : α → Run β) (g : β → Run γ) :
    (run.andThen f).andThen g = run.andThen fun a => (f a).andThen g := by
  obtain ⟨outcome, tally, events⟩ := run
  cases outcome with
  | error e => rfl
  | ok a => cases h : (f a).outcome <;> simp [andThen, h, Metrics.add_assoc]

theorem andThen_pure (run : Run α) : run.andThen (fun a => succeed a) = run := by
  obtain ⟨outcome, tally, events⟩ := run
  cases outcome <;> simp [andThen, succeed]

instance : LawfulMonad Run :=
  LawfulMonad.mk' Run andThen_pure andThen_succeed andThen_assoc

def count (tally : Metrics) : Run Unit := ⟨.ok (), tally, []⟩

def emit (event : Event) : Run Unit := ⟨.ok (), 0, [event]⟩

/-- A run with the given outcome. -/
def ofExcept : Except SemanticError α → Run α
  | .ok a => succeed a
  | .error e => fail e

/-- A run that fails unless the condition holds. -/
def require (condition : Bool) (e : SemanticError) : Run Unit :=
  if condition then succeed () else fail e

def isOk (run : Run α) : Bool := run.outcome.isOk

end Run

end StaticCheck
