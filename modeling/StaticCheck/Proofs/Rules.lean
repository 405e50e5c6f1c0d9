import StaticCheck.Proofs.Runs

/-! # The rules of the checker

Each rule finds the type of a node from the runs of its operands.  For each, one lemma says when it
succeeds, in terms of the outcomes of the operands, and one what it then counts and records: its own
operators, and the effects of all its operands in order. -/

namespace StaticCheck

/-! ### Types that go together -/

namespace Ty

/-- Two types that are equal, or of which one is unknown. -/
def Compatible (a b : Ty) : Prop := a = b ∨ a = undefined ∨ b = undefined

theorem conflicts_eq_false_iff {a b : Ty} : a.conflicts b = false ↔ a.Compatible b := by
  unfold Compatible
  cases a <;> cases b <;> simp [conflicts, isDefined]

theorem maybe_numeric_iff {t : Ty} :
    (!t.isDefined || t.isNumeric) = true ↔ t ∈ [int, real, undefined] := by
  cases t <;> decide

theorem maybe_bool_iff {t : Ty} : (!t.isDefined || t == bool) = true ↔ t ∈ [bool, undefined] := by
  cases t <;> decide

theorem ite_isDefined (s t : Ty) :
    (if s.isDefined then s else t) = if s = undefined then t else s := by
  cases s <;> rfl

end Ty

/-! ### Names -/

theorem lookup_eq_ok_iff {scope : Scope} {name : String} {span : Span} {t : Ty} :
    scope.lookup name span = .ok t ↔ ∃ b, scope.get? name = some b ∧ b.ty = t := by
  unfold Scope.lookup
  cases scope.get? name with
  | none => simp
  | some b => simp

/-! ### Rules -/

namespace Typing

open Run

theorem announce_eq_ok_iff {e : Expr} {run : Run Ty} {t : Ty} :
    (announce e run).outcome = .ok t ↔ run.outcome = .ok t := by
  simp only [announce, outcome_bind_eq_ok_iff, outcome_emit, outcome_pure, Except.ok.injEq,
    true_and, exists_const, exists_eq_right]

theorem announce_effects {e : Expr} {run : Run Ty} {t : Ty} (h : run.outcome = .ok t) :
    (announce e run).effects = run.effects + ⟨0, [.typed e t]⟩ := by
  rw [announce, effects_bind h, effects_emit_bind, effects_pure, Effects.add_zero]

theorem agree_eq_ok_iff {reference : Ty} {operands : List Operand} {u : Unit} :
    (agree reference operands).outcome = .ok u ↔
      ∀ o ∈ operands, ∃ t, o.run.outcome = .ok t ∧ t.Compatible reference := by
  induction operands with
  | nil => simp [agree]
  | cons o rest ih =>
    simp only [agree, outcome_bind_eq_ok_iff, outcome_require_eq_ok_iff, ih, Bool.not_eq_true',
      Ty.conflicts_eq_false_iff, List.forall_mem_cons]
    constructor
    · rintro ⟨t, ho, -, ht, hrest⟩
      exact ⟨⟨t, ho, ht⟩, hrest⟩
    · rintro ⟨⟨t, ho, ht⟩, hrest⟩
      exact ⟨t, ho, (), ht, hrest⟩

theorem agree_effects {reference : Ty} {operands : List Operand}
    (h : ∀ o ∈ operands, ∃ t, o.run.outcome = .ok t ∧ t.Compatible reference) :
    (agree reference operands).effects = (operands.map fun o => o.run.effects).sum := by
  induction operands with
  | nil => rfl
  | cons o rest ih =>
    obtain ⟨⟨t, ho, ht⟩, hrest⟩ := List.forall_mem_cons.1 h
    have agrees : (!t.conflicts reference) = true := by
      rw [Ty.conflicts_eq_false_iff.2 ht, Bool.not_false]
    rw [agree, effects_bind ho, effects_require_bind _ agrees, ih hrest, List.map_cons,
      List.sum_cons]

theorem allBool_eq_ok_iff {operands : List Operand} {u : Unit} :
    (allBool operands).outcome = .ok u ↔ ∀ o ∈ operands, o.run.outcome = .ok .bool := by
  induction operands with
  | nil => simp [allBool]
  | cons o rest ih =>
    simp only [allBool, outcome_bind_eq_ok_iff, outcome_require_eq_ok_iff, ih, beq_iff_eq,
      List.forall_mem_cons]
    constructor
    · rintro ⟨-, ho, -, rfl, hrest⟩
      exact ⟨ho, hrest⟩
    · rintro ⟨ho, hrest⟩
      exact ⟨.bool, ho, (), rfl, hrest⟩

theorem allBool_effects {operands : List Operand}
    (h : ∀ o ∈ operands, o.run.outcome = .ok .bool) :
    (allBool operands).effects = (operands.map fun o => o.run.effects).sum := by
  induction operands with
  | nil => rfl
  | cons o rest ih =>
    obtain ⟨ho, hrest⟩ := List.forall_mem_cons.1 h
    rw [allBool, effects_bind ho, effects_require_bind _ (beq_self_eq_true _), ih hrest,
      List.map_cons, List.sum_cons]

theorem negation_eq_ok_iff {o : Operand} {t : Ty} : (negation o).outcome = .ok t ↔
    o.run.outcome = .ok t ∧ t ∈ [.int, .real, .undefined] := by
  simp only [negation, outcome_bind_eq_ok_iff, outcome_require_eq_ok_iff, Ty.maybe_numeric_iff,
    outcome_count, outcome_pure, Except.ok.injEq, true_and, exists_const]
  constructor
  · rintro ⟨s, ho, hs, rfl⟩
    exact ⟨ho, hs⟩
  · rintro ⟨ho, ht⟩
    exact ⟨t, ho, ht, rfl⟩

theorem negation_effects {o : Operand} {t : Ty} (h : (negation o).outcome = .ok t) :
    (negation o).effects = ⟨.ofOperators 1, []⟩ + o.run.effects := by
  obtain ⟨ho, number⟩ := negation_eq_ok_iff.1 h
  rw [negation, effects_count_bind, effects_bind ho,
    effects_require_bind _ (Ty.maybe_numeric_iff.2 number), effects_pure, Effects.add_zero]

theorem complement_eq_ok_iff {o : Operand} {t : Ty} : (complement o).outcome = .ok t ↔
    t = .bool ∧ ∃ s, o.run.outcome = .ok s ∧ s ∈ [.bool, .undefined] := by
  simp only [complement, outcome_bind_eq_ok_iff, outcome_require_eq_ok_iff, Ty.maybe_bool_iff,
    outcome_count, outcome_pure, Except.ok.injEq, true_and, exists_const]
  constructor
  · rintro ⟨s, ho, hs, rfl⟩
    exact ⟨rfl, s, ho, hs⟩
  · rintro ⟨rfl, s, ho, hs⟩
    exact ⟨s, ho, hs, rfl⟩

theorem complement_effects {o : Operand} {t : Ty} (h : (complement o).outcome = .ok t) :
    (complement o).effects = ⟨.ofOperators 1, []⟩ + o.run.effects := by
  obtain ⟨-, s, ho, truth⟩ := complement_eq_ok_iff.1 h
  rw [complement, effects_count_bind, effects_bind ho,
    effects_require_bind _ (Ty.maybe_bool_iff.2 truth), effects_pure, Effects.add_zero]

theorem arithmetic_eq_ok_iff {first : Operand} {rest : List Operand} {t : Ty} :
    (arithmetic first rest).outcome = .ok t ↔
      first.run.outcome = .ok t ∧ t ∈ [.int, .real, .undefined] ∧
        ∀ o ∈ rest, ∃ s, o.run.outcome = .ok s ∧ s.Compatible t := by
  simp only [arithmetic, outcome_bind_eq_ok_iff, outcome_require_eq_ok_iff, Ty.maybe_numeric_iff,
    agree_eq_ok_iff, outcome_count, outcome_pure, Except.ok.injEq, true_and, exists_const]
  constructor
  · rintro ⟨s, hfirst, hs, hrest, rfl⟩
    exact ⟨hfirst, hs, hrest⟩
  · rintro ⟨hfirst, ht, hrest⟩
    exact ⟨t, hfirst, ht, hrest, rfl⟩

theorem arithmetic_effects {first : Operand} {rest : List Operand} {t : Ty}
    (h : (arithmetic first rest).outcome = .ok t) :
    (arithmetic first rest).effects = ⟨.ofOperators rest.length, []⟩ +
      ((first :: rest).map fun o => o.run.effects).sum := by
  obtain ⟨hfirst, number, hrest⟩ := arithmetic_eq_ok_iff.1 h
  have hagree : (agree t rest).outcome = .ok () := agree_eq_ok_iff.2 hrest
  rw [arithmetic, effects_count_bind, effects_bind hfirst,
    effects_require_bind _ (Ty.maybe_numeric_iff.2 number), effects_bind hagree,
    agree_effects hrest, effects_pure, Effects.add_zero, List.map_cons, List.sum_cons]

theorem logical_eq_ok_iff {first : Operand} {rest : List Operand} {t : Ty} :
    (logical first rest).outcome = .ok t ↔
      t = .bool ∧ first.run.outcome = .ok .bool ∧ ∀ o ∈ rest, o.run.outcome = .ok .bool := by
  simp only [logical, outcome_bind_eq_ok_iff, allBool_eq_ok_iff, List.forall_mem_cons,
    outcome_count, outcome_pure, Except.ok.injEq, true_and, exists_const]
  rw [and_comm, eq_comm]

theorem logical_effects {first : Operand} {rest : List Operand} {t : Ty}
    (h : (logical first rest).outcome = .ok t) :
    (logical first rest).effects = ⟨.ofOperators rest.length, []⟩ +
      ((first :: rest).map fun o => o.run.effects).sum := by
  have truths : ∀ o ∈ first :: rest, o.run.outcome = .ok .bool :=
    List.forall_mem_cons.2 (logical_eq_ok_iff.1 h).2
  have hall : (allBool (first :: rest)).outcome = .ok () := allBool_eq_ok_iff.2 truths
  rw [logical, effects_count_bind, effects_bind hall, allBool_effects truths, effects_pure,
    Effects.add_zero]

theorem list_eq_ok_iff {first : Operand} {rest : List Operand} {t : Ty} :
    (list (first :: rest)).outcome = .ok t ↔
      t = .list ∧ ∃ s, first.run.outcome = .ok s ∧
        ∀ o ∈ rest, ∃ r, o.run.outcome = .ok r ∧ r.Compatible s := by
  simp only [list, outcome_bind_eq_ok_iff, agree_eq_ok_iff, outcome_pure, Except.ok.injEq,
    exists_const]
  constructor
  · rintro ⟨s, hfirst, hrest, rfl⟩
    exact ⟨rfl, s, hfirst, hrest⟩
  · rintro ⟨rfl, s, hfirst, hrest⟩
    exact ⟨s, hfirst, hrest, rfl⟩

theorem list_effects {items : List Operand} {t : Ty} (h : (list items).outcome = .ok t) :
    (list items).effects = (items.map fun o => o.run.effects).sum := by
  cases items with
  | nil => rfl
  | cons first rest =>
    obtain ⟨-, s, hfirst, hrest⟩ := list_eq_ok_iff.1 h
    have hagree : (agree s rest).outcome = .ok () := agree_eq_ok_iff.2 hrest
    rw [list, effects_bind hfirst, effects_bind hagree, agree_effects hrest, effects_pure,
      Effects.add_zero, List.map_cons, List.sum_cons]

/-- Two known types that can be compared. -/
theorem comparable_iff {op : CompareOp} {l r : Ty} :
    ((l.isDefined && r.isDefined) = true ∧ comparable op l r = true) ↔
      (op ∈ [.less, .greater, .atMost, .atLeast] ∧ l ∈ [.int, .real] ∧ r ∈ [.int, .real]) ∨
        (op ∈ [.equal, .notEqual] ∧ l = r ∧ l ≠ .undefined) := by
  cases op <;> cases l <;> cases r <;> decide

theorem comparison_eq_ok_iff {op : CompareOp} {left right : Operand} {t : Ty} :
    (comparison op left right).outcome = .ok t ↔
      t = .bool ∧ ∃ l r, left.run.outcome = .ok l ∧ right.run.outcome = .ok r ∧
        ((op ∈ [.less, .greater, .atMost, .atLeast] ∧ l ∈ [.int, .real] ∧ r ∈ [.int, .real]) ∨
          (op ∈ [.equal, .notEqual] ∧ l = r ∧ l ≠ .undefined)) := by
  simp only [comparison, outcome_bind_eq_ok_iff, outcome_require_eq_ok_iff, outcome_count,
    outcome_pure, Except.ok.injEq, true_and, exists_const, ← comparable_iff]
  constructor
  · rintro ⟨l, hl, r, hr, known, hop, rfl⟩
    exact ⟨rfl, l, r, hl, hr, known, hop⟩
  · rintro ⟨rfl, l, r, hl, hr, known, hop⟩
    exact ⟨l, hl, r, hr, known, hop, rfl⟩

theorem comparison_effects {op : CompareOp} {left right : Operand} {t : Ty}
    (h : (comparison op left right).outcome = .ok t) :
    (comparison op left right).effects =
      ⟨.ofOperators 1, []⟩ + (left.run.effects + right.run.effects) := by
  obtain ⟨-, l, r, hl, hr, hop⟩ := comparison_eq_ok_iff.1 h
  -- the operator is counted between the two conditions, both of which hold here
  obtain ⟨known, hop⟩ := comparable_iff.2 hop
  rw [comparison, effects_bind hl, effects_bind hr, effects_require_bind _ known,
    effects_count_bind, effects_require_bind _ hop, effects_pure, Effects.add_zero,
    ← Effects.add_assoc, Effects.add_counted]

theorem condition_eq_ok_iff {o : Operand} {u : Unit} :
    (condition o).outcome = .ok u ↔ o.run.outcome = .ok .bool := by
  simp only [condition, outcome_bind_eq_ok_iff, outcome_require_eq_ok_iff, beq_iff_eq,
    exists_eq_right]

theorem condition_effects {o : Operand} (h : o.run.outcome = .ok .bool) :
    (condition o).effects = o.run.effects := by
  rw [condition, effects_bind h, effects_require, Effects.add_zero]

theorem ternary_eq_ok_iff {test thenArm elseArm : Operand} {span : Span} {t : Ty} :
    (ternary test thenArm elseArm span).outcome = .ok t ↔
      test.run.outcome = .ok .bool ∧ ∃ a b, thenArm.run.outcome = .ok a ∧
        elseArm.run.outcome = .ok b ∧ a.Compatible b ∧ t = if a = .undefined then b else a := by
  simp only [ternary, outcome_bind_eq_ok_iff, outcome_require_eq_ok_iff, condition_eq_ok_iff,
    Bool.not_eq_true', Ty.conflicts_eq_false_iff, Ty.ite_isDefined, outcome_count, outcome_pure,
    Except.ok.injEq, true_and, exists_const]
  constructor
  · rintro ⟨htest, a, ha, b, hb, hab, rfl⟩
    exact ⟨htest, a, b, ha, hb, hab, rfl⟩
  · rintro ⟨htest, a, b, ha, hb, hab, rfl⟩
    exact ⟨htest, a, ha, b, hb, hab, rfl⟩

theorem ternary_effects {test thenArm elseArm : Operand} {span : Span} {t : Ty}
    (h : (ternary test thenArm elseArm span).outcome = .ok t) :
    (ternary test thenArm elseArm span).effects = ⟨.conditional, []⟩ +
      (test.run.effects + (thenArm.run.effects + elseArm.run.effects)) := by
  obtain ⟨htest, a, b, ha, hb, hab, -⟩ := ternary_eq_ok_iff.1 h
  have agrees : (!a.conflicts b) = true := by
    rw [Ty.conflicts_eq_false_iff.2 hab, Bool.not_false]
  have hcondition : (condition test).outcome = .ok () := condition_eq_ok_iff.2 htest
  rw [ternary, effects_count_bind, effects_bind hcondition, condition_effects htest,
    effects_bind ha, effects_bind hb, effects_require_bind _ agrees, effects_pure,
    Effects.add_zero]

end Typing

end StaticCheck
