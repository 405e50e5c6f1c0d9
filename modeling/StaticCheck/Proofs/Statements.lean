import StaticCheck.Proofs.Rules
import StaticCheck.Stmt.Checking

/-! # Checking one statement

For each kind of statement, when its check succeeds, what it then counts and records, and which
scope it leaves behind, in terms of the checks of its parts.  A list of statements is checked from
one scope to the next (`checkAll_cons_eq_ok_iff`), and only declarations make the scopes differ
(`check_scope`). -/

namespace StaticCheck

open Run Typing

/-! ### Conditions -/

theorem Expr.checkCondition_eq_ok_iff {scope : Scope} {e : Expr} :
    (e.checkCondition scope).outcome = .ok () ↔ (e.check scope).outcome = .ok .bool :=
  condition_eq_ok_iff

theorem Expr.checkCondition_effects {scope : Scope} {e : Expr}
    (h : (e.check scope).outcome = .ok .bool) :
    (e.checkCondition scope).effects = (e.check scope).effects :=
  condition_effects h

/-! ### Declarations -/

namespace Declaration

/-- What a declaration at the given depth binds its name to. -/
def binding (decl : Declaration) (depth : Nat) : Binding :=
  ⟨decl.name, .ofName decl.typeName, decl.nameSpan, depth⟩

/-- The scope behind a declaration that is not refused. -/
def extend (decl : Declaration) (scope : Scope) : Scope := scope.insert (decl.binding scope.depth)

variable {scope : Scope} {decl : Declaration}

theorem check_of_blocks (h : scope.blocks decl.name = true) :
    decl.check scope = (fail (.redeclared decl.name decl.nameSpan), scope) := by
  have refused : scope.declare decl.name (.ofName decl.typeName) decl.nameSpan =
      .error (.redeclared decl.name decl.nameSpan) := by
    rw [Scope.declare, if_pos h]
  simp only [check, refused]

theorem check_of_not_blocks (h : scope.blocks decl.name = false) :
    decl.check scope = (do
      count .declaration
      emit (.declared decl.name (.ofName decl.typeName) scope.depth)
      match decl.init with
      | none => return ()
      | some init =>
        let found ← init.check (decl.extend scope)
        require (found.fits (.ofName decl.typeName)) (.assignment decl.name decl.span),
      decl.extend scope) := by
  have bound : scope.declare decl.name (.ofName decl.typeName) decl.nameSpan =
      .ok (decl.extend scope) := by
    rw [Scope.declare, if_neg (Bool.eq_false_iff.1 h)]
    rfl
  simp only [check, bound]
  rfl

theorem check_eq_ok_iff : (decl.check scope).1.outcome = .ok () ↔
    scope.blocks decl.name = false ∧ ∀ e ∈ decl.init, ∃ t,
      (e.check (decl.extend scope)).outcome = .ok t ∧ t.fits (.ofName decl.typeName) = true := by
  cases h : scope.blocks decl.name with
  | true => simp [check_of_blocks h, fail]
  | false =>
    rw [check_of_not_blocks h]
    simp only [outcome_seq_eq_ok_iff, outcome_count, outcome_emit, true_and]
    cases decl.init with
    | none => simp
    | some init => simp [outcome_bind_eq_ok_iff, outcome_require_eq_ok_iff]

theorem check_scope_eq (h : (decl.check scope).1.outcome = .ok ()) :
    (decl.check scope).2 = decl.extend scope := by
  rw [check_of_not_blocks (check_eq_ok_iff.1 h).1]

theorem check_effects (h : (decl.check scope).1.outcome = .ok ()) :
    (decl.check scope).1.effects =
      ⟨.declaration, [.declared decl.name (.ofName decl.typeName) scope.depth]⟩ +
        decl.init.elim 0 fun e => (e.check (decl.extend scope)).effects := by
  obtain ⟨hfree, hinit⟩ := check_eq_ok_iff.1 h
  rw [check_of_not_blocks hfree, effects_count_bind, effects_emit_bind, ← Effects.add_assoc]
  cases hi : decl.init with
  | none => rfl
  | some init =>
    obtain ⟨t, ht, -⟩ := hinit init hi
    simp only [effects_bind ht, effects_require, Effects.add_zero, Option.elim_some]
    rfl

end Declaration

/-! ### Statements without blocks -/

namespace Stmt

variable {scope : Scope} {span : Span}

theorem check_declare (decl : Declaration) :
    check scope (.declare decl span) = decl.check scope := rfl

theorem check_assign (target : String) (targetSpan : Span) (value : Expr) :
    check scope (.assign target targetSpan value span) =
      (checkAssign scope target targetSpan value span, scope) := rfl

theorem checkAssign_eq_ok_iff {target : String} {targetSpan : Span} {value : Expr} {u : Unit} :
    (checkAssign scope target targetSpan value span).outcome = .ok u ↔
      ∃ declared found, scope.lookup target targetSpan = .ok declared ∧
        (value.check scope).outcome = .ok found ∧ found.fits declared = true := by
  simp only [checkAssign, outcome_bind_eq_ok_iff, outcome_ofExcept, outcome_require_eq_ok_iff]
  constructor
  · rintro ⟨declared, hd, found, hf, fits⟩
    exact ⟨declared, found, hd, hf, fits⟩
  · rintro ⟨declared, found, hd, hf, fits⟩
    exact ⟨declared, hd, found, hf, fits⟩

theorem checkAssign_effects {target : String} {targetSpan : Span} {value : Expr}
    (h : (checkAssign scope target targetSpan value span).outcome = .ok ()) :
    (checkAssign scope target targetSpan value span).effects = (value.check scope).effects := by
  obtain ⟨declared, found, hd, hf, -⟩ := checkAssign_eq_ok_iff.1 h
  have hlook : (ofExcept (scope.lookup target targetSpan)).outcome = .ok declared := by
    rw [outcome_ofExcept, hd]
  rw [checkAssign, effects_bind hlook, effects_ofExcept, effects_bind hf, effects_require,
    Effects.zero_add, Effects.add_zero]

theorem check_expr (value : Expr) : check scope (.expr value span) =
    (do let _ ← value.check scope, scope) := rfl

theorem check_expr_eq_ok_iff {value : Expr} :
    (check scope (.expr value span)).1.outcome = .ok () ↔
      ∃ t, (value.check scope).outcome = .ok t := by
  simp only [check_expr, outcome_bind_eq_ok_iff, outcome_pure, and_true]

theorem check_expr_effects {value : Expr}
    (h : (check scope (.expr value span)).1.outcome = .ok ()) :
    (check scope (.expr value span)).1.effects = (value.check scope).effects := by
  obtain ⟨t, ht⟩ := check_expr_eq_ok_iff.1 h
  rw [check_expr, effects_bind ht, effects_pure, Effects.add_zero]

/-! ### Statements with blocks -/

/-- What a block leaves behind: the effects of its statements between two records. -/
def blockEffects (inner : Scope) (body : Effects) : Effects :=
  ⟨0, [.entered inner.depth inner.size]⟩ + (body + ⟨0, [.left inner.depth]⟩)

theorem enclose_eq_ok_iff {inner : Scope} {body : Run Unit × Scope} :
    (enclose inner body).1.outcome = .ok () ↔ body.1.outcome = .ok () := by
  simp only [enclose, outcome_seq_eq_ok_iff, outcome_emit, true_and, and_true]

theorem enclose_effects {inner : Scope} {body : Run Unit × Scope} (h : body.1.outcome = .ok ()) :
    (enclose inner body).1.effects = blockEffects inner body.1.effects := by
  rw [enclose, effects_emit_bind, effects_bind h, effects_emit, blockEffects]

variable {test : Expr} {body : Block Stmt}

theorem check_ifThen : check scope (.ifElse test body none span) =
    (do
      count .conditional
      test.checkCondition scope
      (enclose scope.enterBody (checkAll scope.enterBody body.stmts)).1, scope) := rfl

theorem check_ifThen_eq_ok_iff :
    (check scope (.ifElse test body none span)).1.outcome = .ok () ↔
      (test.check scope).outcome = .ok .bool ∧
        (checkAll scope.enterBody body.stmts).1.outcome = .ok () := by
  simp only [check_ifThen, outcome_seq_eq_ok_iff, outcome_count, Expr.checkCondition_eq_ok_iff,
    enclose_eq_ok_iff, true_and]

theorem check_ifThen_effects
    (h : (check scope (.ifElse test body none span)).1.outcome = .ok ()) :
    (check scope (.ifElse test body none span)).1.effects = ⟨.conditional, []⟩ +
      ((test.check scope).effects +
        blockEffects scope.enterBody (checkAll scope.enterBody body.stmts).1.effects) := by
  obtain ⟨htest, hbody⟩ := check_ifThen_eq_ok_iff.1 h
  rw [check_ifThen, effects_count_bind, effects_bind (Expr.checkCondition_eq_ok_iff.2 htest),
    Expr.checkCondition_effects htest, enclose_effects hbody]

theorem check_ifElse {other : Block Stmt} : check scope (.ifElse test body (some other) span) =
    (do
      count .conditional
      test.checkCondition scope
      (enclose scope.enterBody (checkAll scope.enterBody body.stmts)).1
      (enclose scope.enterBody (checkAll scope.enterBody other.stmts)).1, scope) := rfl

theorem check_ifElse_eq_ok_iff {other : Block Stmt} :
    (check scope (.ifElse test body (some other) span)).1.outcome = .ok () ↔
      (test.check scope).outcome = .ok .bool ∧
        (checkAll scope.enterBody body.stmts).1.outcome = .ok () ∧
          (checkAll scope.enterBody other.stmts).1.outcome = .ok () := by
  simp only [check_ifElse, outcome_seq_eq_ok_iff, outcome_count, Expr.checkCondition_eq_ok_iff,
    enclose_eq_ok_iff, true_and]

theorem check_ifElse_effects {other : Block Stmt}
    (h : (check scope (.ifElse test body (some other) span)).1.outcome = .ok ()) :
    (check scope (.ifElse test body (some other) span)).1.effects = ⟨.conditional, []⟩ +
      ((test.check scope).effects +
        (blockEffects scope.enterBody (checkAll scope.enterBody body.stmts).1.effects +
          blockEffects scope.enterBody (checkAll scope.enterBody other.stmts).1.effects)) := by
  obtain ⟨htest, hbody, hother⟩ := check_ifElse_eq_ok_iff.1 h
  rw [check_ifElse, effects_count_bind, effects_bind (Expr.checkCondition_eq_ok_iff.2 htest),
    Expr.checkCondition_effects htest, effects_bind (enclose_eq_ok_iff.2 hbody),
    enclose_effects hbody, enclose_effects hother]

theorem check_whileDo : check scope (.whileDo test body span) =
    (do
      count .loop
      test.checkCondition scope
      (enclose scope.enterBody (checkAll scope.enterBody body.stmts)).1, scope) := rfl

theorem check_whileDo_eq_ok_iff :
    (check scope (.whileDo test body span)).1.outcome = .ok () ↔
      (test.check scope).outcome = .ok .bool ∧
        (checkAll scope.enterBody body.stmts).1.outcome = .ok () := by
  simp only [check_whileDo, outcome_seq_eq_ok_iff, outcome_count, Expr.checkCondition_eq_ok_iff,
    enclose_eq_ok_iff, true_and]

theorem check_whileDo_effects (h : (check scope (.whileDo test body span)).1.outcome = .ok ()) :
    (check scope (.whileDo test body span)).1.effects = ⟨.loop, []⟩ +
      ((test.check scope).effects +
        blockEffects scope.enterBody (checkAll scope.enterBody body.stmts).1.effects) := by
  obtain ⟨htest, hbody⟩ := check_whileDo_eq_ok_iff.1 h
  rw [check_whileDo, effects_count_bind, effects_bind (Expr.checkCondition_eq_ok_iff.2 htest),
    Expr.checkCondition_effects htest, enclose_effects hbody]

/-- The condition behind a body is checked in the scope that the body leaves. -/
theorem check_doWhile : check scope (.doWhile body test span) =
    (do
      count .loop
      (enclose scope.enterBody (checkAll scope.enterBody body.stmts)).1
      test.checkCondition (checkAll scope.enterBody body.stmts).2, scope) := rfl

theorem check_doWhile_eq_ok_iff :
    (check scope (.doWhile body test span)).1.outcome = .ok () ↔
      (checkAll scope.enterBody body.stmts).1.outcome = .ok () ∧
        (test.check (checkAll scope.enterBody body.stmts).2).outcome = .ok .bool := by
  simp only [check_doWhile, outcome_seq_eq_ok_iff, outcome_count, Expr.checkCondition_eq_ok_iff,
    enclose_eq_ok_iff, true_and]

theorem check_doWhile_effects (h : (check scope (.doWhile body test span)).1.outcome = .ok ()) :
    (check scope (.doWhile body test span)).1.effects = ⟨.loop, []⟩ +
      (blockEffects scope.enterBody (checkAll scope.enterBody body.stmts).1.effects +
        (test.check (checkAll scope.enterBody body.stmts).2).effects) := by
  obtain ⟨hbody, htest⟩ := check_doWhile_eq_ok_iff.1 h
  rw [check_doWhile, effects_count_bind, effects_bind (enclose_eq_ok_iff.2 hbody),
    enclose_effects hbody, Expr.checkCondition_effects htest]

theorem check_block : check scope (.block body span) =
    ((enclose scope.enterBlock (checkAll scope.enterBlock body.stmts)).1, scope) := rfl

theorem check_block_eq_ok_iff :
    (check scope (.block body span)).1.outcome = .ok () ↔
      (checkAll scope.enterBlock body.stmts).1.outcome = .ok () := by
  rw [check_block, enclose_eq_ok_iff]

theorem check_block_effects (h : (check scope (.block body span)).1.outcome = .ok ()) :
    (check scope (.block body span)).1.effects =
      blockEffects scope.enterBlock (checkAll scope.enterBlock body.stmts).1.effects := by
  rw [check_block, enclose_effects (check_block_eq_ok_iff.1 h)]

/-! ### Scopes -/

def declaration? : Stmt → Option Declaration
  | declare decl _ => some decl
  | _ => none

/-- Only a declaration changes the scope. -/
theorem check_scope {s : Stmt} (h : (s.check scope).1.outcome = .ok ()) :
    (s.check scope).2 = s.declaration?.elim scope fun decl => decl.extend scope := by
  cases s with
  | declare decl span => exact decl.check_scope_eq h
  | ifElse test body other span => cases other <;> rfl
  | assign | whileDo | doWhile | block | expr => rfl

/-! ### Lists of statements -/

variable {s : Stmt} {rest stmts : List Stmt}

theorem checkAll_cons_of_ok (h : (s.check scope).1.outcome = .ok ()) :
    checkAll scope (s :: rest) =
      ((s.check scope).1 >>= fun _ => (checkAll (s.check scope).2 rest).1,
        (checkAll (s.check scope).2 rest).2) := by
  rw [checkAll]
  simp only [isOk_iff.2 h, if_true]
  rfl

/-- A statement that fails ends the check of a list. -/
theorem checkAll_cons_of_error {e : SemanticError} (h : (s.check scope).1.outcome = .error e) :
    checkAll scope (s :: rest) = s.check scope := by
  have hno : (s.check scope).1.isOk = false := by
    rw [isOk, h]
    rfl
  rw [checkAll]
  simp [hno]

/-- The run of a list is that of its first statement and then that of the others. -/
theorem checkAll_cons_run : (checkAll scope (s :: rest)).1 =
    (s.check scope).1 >>= fun _ => (checkAll (s.check scope).2 rest).1 := by
  cases hs : (s.check scope).1.outcome with
  | ok u => rw [checkAll_cons_of_ok hs]
  | error e =>
    rw [checkAll_cons_of_error hs]
    change _ = (s.check scope).1.andThen _
    rw [andThen, hs]
    exact congrArg (fun outcome => (⟨outcome, _, _⟩ : Run Unit)) hs

theorem checkAll_cons_eq_ok_iff : (checkAll scope (s :: rest)).1.outcome = .ok () ↔
    (s.check scope).1.outcome = .ok () ∧
      (checkAll (s.check scope).2 rest).1.outcome = .ok () := by
  by_cases h : (s.check scope).1.outcome = .ok ()
  · rw [checkAll_cons_of_ok h, outcome_bind_eq_ok_iff]
    simp [h]
  · have hno : (s.check scope).1.isOk = false := by
      rw [Bool.eq_false_iff, Ne, isOk_iff]
      exact h
    rw [checkAll]
    simp [hno, h]

theorem checkAll_cons_effects (h : (checkAll scope (s :: rest)).1.outcome = .ok ()) :
    (checkAll scope (s :: rest)).1.effects =
      (s.check scope).1.effects + (checkAll (s.check scope).2 rest).1.effects := by
  obtain ⟨hs, -⟩ := checkAll_cons_eq_ok_iff.1 h
  rw [checkAll_cons_of_ok hs, effects_bind hs]

/-- The scope behind statements that check is reached one statement after the other. -/
theorem checkAll_scope (h : (checkAll scope stmts).1.outcome = .ok ()) :
    (checkAll scope stmts).2 = stmts.foldl (fun scope s => (s.check scope).2) scope := by
  induction stmts generalizing scope with
  | nil => rfl
  | cons s rest ih =>
    obtain ⟨hs, hrest⟩ := checkAll_cons_eq_ok_iff.1 h
    rw [checkAll_cons_of_ok hs, List.foldl_cons, ← ih hrest]

end Stmt

/-! ### Programs -/

theorem Program.analyze_eq_ok_iff {p : Program} {m : Metrics} : p.analyze = .ok m ↔
    (Stmt.checkAll .empty p.stmts).1.outcome = .ok () ∧
      (Stmt.checkAll .empty p.stmts).1.tally = m := by
  change ((Stmt.checkAll .empty p.stmts).1 >>= fun _ => _).outcome = .ok m ↔ _
  simp only [outcome_seq_eq_ok_iff, outcome_emit, outcome_pure, true_and, Except.ok.injEq]

theorem Program.analyze_eq (p : Program) : p.analyze =
    (Stmt.checkAll .empty p.stmts).1.outcome.map fun _ =>
      (Stmt.checkAll .empty p.stmts).1.tally := by
  change ((Stmt.checkAll .empty p.stmts).1.andThen _).outcome = _
  unfold Run.andThen
  cases (Stmt.checkAll .empty p.stmts).1.outcome <;> rfl

/-- The run of the statements of a program. -/
def Program.body (p : Program) : Run Unit := (Stmt.checkAll .empty p.stmts).1

/-- A whole check counts what its statements count, and records its completion behind them. -/
theorem Program.check_eq (p : Program) : p.check = ⟨p.analyze, p.body.tally,
    p.body.events ++ p.analyze.toOption.toList.map .completed⟩ := by
  rw [analyze_eq]
  change (p.body.andThen fun _ => do Run.emit (.completed p.body.tally); return p.body.tally) =
    ⟨p.body.outcome.map fun _ => p.body.tally, p.body.tally,
      p.body.events ++ (p.body.outcome.map fun _ => p.body.tally).toOption.toList.map .completed⟩
  obtain ⟨outcome, tally, events⟩ := p.body
  cases outcome with
  | error e => exact congrArg (Run.mk _ tally) (List.append_nil events).symm
  | ok u => rfl

theorem Program.check_events {p : Program} {m : Metrics} (h : p.analyze = .ok m) :
    p.check.events = (Stmt.checkAll .empty p.stmts).1.events ++ [.completed m] := by
  rw [check_eq, h]
  rfl

end StaticCheck
