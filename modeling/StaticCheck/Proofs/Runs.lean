import StaticCheck.Expr.Typing

/-! # Runs that succeed

When a run made of several parts succeeds, every part succeeds, and what the parts counted and
recorded is added up in order.  `outcome_bind_eq_ok_iff` says the first and `effects_bind` the
second; with them a check is taken apart without being opened. -/

namespace StaticCheck

/-! ### Effects -/

/-- What a run leaves behind besides its outcome. -/
structure Effects where
  tally : Metrics
  events : List Event

namespace Effects

instance : Zero Effects := ⟨⟨0, []⟩⟩

instance : Add Effects := ⟨fun a b => ⟨a.tally + b.tally, a.events ++ b.events⟩⟩

@[simp] theorem events_add (a b : Effects) : (a + b).events = a.events ++ b.events := rfl

@[simp] protected theorem zero_add (a : Effects) : 0 + a = a := by
  change (⟨0 + a.tally, [] ++ a.events⟩ : Effects) = a
  rw [Metrics.zero_add, List.nil_append]

@[simp] protected theorem add_zero (a : Effects) : a + 0 = a := by
  change (⟨a.tally + 0, a.events ++ []⟩ : Effects) = a
  rw [Metrics.add_zero, List.append_nil]

protected theorem add_assoc (a b c : Effects) : a + b + c = a + (b + c) := by
  change (⟨a.tally + b.tally + c.tally, a.events ++ b.events ++ c.events⟩ : Effects) = _
  rw [Metrics.add_assoc, List.append_assoc]
  rfl

/-- What is only counted may be counted earlier. -/
theorem add_counted (a : Effects) (m : Metrics) : a + ⟨m, []⟩ = ⟨m, []⟩ + a := by
  change (⟨a.tally + m, a.events ++ []⟩ : Effects) = ⟨m + a.tally, [] ++ a.events⟩
  rw [Metrics.add_comm, List.append_nil, List.nil_append]

theorem events_sum (l : List Effects) : l.sum.events = l.flatMap events := by
  induction l with
  | nil => rfl
  | cons a l ih => rw [List.sum_cons, events_add, ih, List.flatMap_cons]

end Effects

namespace Run

variable {α β : Type}

def effects (run : Run α) : Effects := ⟨run.tally, run.events⟩

/-! ### Runs in sequence -/

theorem outcome_bind_eq_ok_iff {run : Run α} {next : α → Run β} {b : β} :
    (run >>= next).outcome = .ok b ↔ ∃ a, run.outcome = .ok a ∧ (next a).outcome = .ok b := by
  change (run.andThen next).outcome = .ok b ↔ _
  unfold andThen
  cases run.outcome with
  | error e => simp
  | ok a => simp

/-- A run without a result of its own, and then another. -/
theorem outcome_seq_eq_ok_iff {run : Run Unit} {next : Unit → Run β} {b : β} :
    (run >>= next).outcome = .ok b ↔ run.outcome = .ok () ∧ (next ()).outcome = .ok b := by
  rw [outcome_bind_eq_ok_iff]
  constructor
  · rintro ⟨⟨⟩, h⟩
    exact h
  · intro h
    exact ⟨(), h⟩

theorem outcome_bind_of_ok {run : Run α} {next : α → Run β} {a : α} (h : run.outcome = .ok a) :
    (run >>= next).outcome = (next a).outcome := by
  change (run.andThen next).outcome = _
  unfold andThen
  rw [h]

theorem effects_bind {run : Run α} {next : α → Run β} {a : α} (h : run.outcome = .ok a) :
    (run >>= next).effects = run.effects + (next a).effects := by
  change (run.andThen next).effects = _
  unfold andThen
  rw [h]
  rfl

/-! ### Single steps -/

@[simp] theorem outcome_pure (a : α) : (pure a : Run α).outcome = .ok a := rfl

@[simp] theorem effects_pure (a : α) : (pure a : Run α).effects = 0 := rfl

@[simp] theorem outcome_count (tally : Metrics) : (count tally).outcome = .ok () := rfl

theorem effects_count_bind (tally : Metrics) (next : Unit → Run α) :
    (count tally >>= next).effects = ⟨tally, []⟩ + (next ()).effects :=
  effects_bind (outcome_count tally)

@[simp] theorem outcome_emit (event : Event) : (emit event).outcome = .ok () := rfl

@[simp] theorem effects_emit (event : Event) : (emit event).effects = ⟨0, [event]⟩ := rfl

theorem effects_emit_bind (event : Event) (next : Unit → Run α) :
    (emit event >>= next).effects = ⟨0, [event]⟩ + (next ()).effects :=
  effects_bind (outcome_emit event)

@[simp] theorem outcome_ofExcept (result : Except SemanticError α) :
    (ofExcept result).outcome = result := by
  cases result <;> rfl

@[simp] theorem effects_ofExcept (result : Except SemanticError α) :
    (ofExcept result).effects = 0 := by
  cases result <;> rfl

theorem outcome_require_eq_ok_iff {condition : Bool} {e : SemanticError} {u : Unit} :
    (require condition e).outcome = .ok u ↔ condition = true := by
  unfold require
  cases condition with
  | false => simp [fail]
  | true => simp [succeed]

@[simp] theorem effects_require (condition : Bool) (e : SemanticError) :
    (require condition e).effects = 0 := by
  unfold require
  cases condition <;> rfl

theorem effects_require_bind {condition : Bool} {e : SemanticError} (next : Unit → Run α)
    (h : condition = true) : (require condition e >>= next).effects = (next ()).effects := by
  rw [effects_bind (outcome_require_eq_ok_iff.2 h), effects_require, Effects.zero_add]

theorem isOk_iff {run : Run Unit} : run.isOk = true ↔ run.outcome = .ok () := by
  unfold isOk
  cases run.outcome with
  | error e => simp [Except.isOk, Except.toBool]
  | ok u => simp [Except.isOk, Except.toBool]

end Run

end StaticCheck
