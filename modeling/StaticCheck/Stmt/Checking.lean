import StaticCheck.Expr.Typing
import StaticCheck.Stmt

/-! # Checking statements

A statement is checked against the scope before it and leaves a scope behind, also when it fails.
Declarations extend the scope; a block works on a copy of its own, which is dropped at its end.
Only the condition behind the body of a loop still sees what that body declared.

`Program.check` checks a whole program from the empty scope. -/

namespace StaticCheck

open Run Typing

/-- Checks a declaration.  The new name is visible to its own initial value. -/
def Declaration.check (scope : Scope) (decl : Declaration) : Run Unit × Scope :=
  let ty := Ty.ofName decl.typeName
  match scope.declare decl.name ty decl.nameSpan with
  | .error e => (fail e, scope)
  | .ok extended =>
    let run : Run Unit := do
      count .declaration
      emit (.declared decl.name ty extended.depth)
      match decl.init with
      | none => return ()
      | some init =>
        let found ← init.check extended
        require (found.fits ty) (.assignment decl.name decl.span)
    (run, extended)

namespace Stmt

def checkAssign (scope : Scope) (target : String) (targetSpan : Span) (value : Expr)
    (span : Span) : Run Unit := do
  let declared ← ofExcept (scope.lookup target targetSpan)
  let found ← value.check scope
  require (found.fits declared) (.assignment target span)

/-- Records that a block is entered and left around the run of its statements. -/
def enclose (inner : Scope) (body : Run Unit × Scope) : Run Unit × Scope :=
  let run : Run Unit := do
    emit (.entered inner.depth inner.size)
    body.1
    emit (.left inner.depth)
  (run, body.2)

mutual

/-- Checks a statement, and gives the scope behind it. -/
def check (scope : Scope) : Stmt → Run Unit × Scope
  | declare decl _ => decl.check scope
  | assign target targetSpan value span =>
    (checkAssign scope target targetSpan value span, scope)
  | ifElse test ⟨thenStmts, _⟩ none _ =>
    let thenRun := (enclose scope.enterBody (checkAll scope.enterBody thenStmts)).1
    let run : Run Unit := do
      count .conditional
      test.checkCondition scope
      thenRun
    (run, scope)
  | ifElse test ⟨thenStmts, _⟩ (some ⟨elseStmts, _⟩) _ =>
    let thenRun := (enclose scope.enterBody (checkAll scope.enterBody thenStmts)).1
    let elseRun := (enclose scope.enterBody (checkAll scope.enterBody elseStmts)).1
    let run : Run Unit := do
      count .conditional
      test.checkCondition scope
      thenRun
      elseRun
    (run, scope)
  | whileDo test ⟨stmts, _⟩ _ =>
    let bodyRun := (enclose scope.enterBody (checkAll scope.enterBody stmts)).1
    let run : Run Unit := do
      count .loop
      test.checkCondition scope
      bodyRun
    (run, scope)
  | doWhile ⟨stmts, _⟩ test _ =>
    let (bodyRun, inner) := enclose scope.enterBody (checkAll scope.enterBody stmts)
    let run : Run Unit := do
      count .loop
      bodyRun
      test.checkCondition inner
    (run, scope)
  | block ⟨stmts, _⟩ _ =>
    ((enclose scope.enterBlock (checkAll scope.enterBlock stmts)).1, scope)
  | expr value _ =>
    let run : Run Unit := do
      let _ ← value.check scope
    (run, scope)
termination_by structural s => s

/-- Checks statements in order up to the first failure, and gives the scope reached. -/
def checkAll (scope : Scope) : List Stmt → Run Unit × Scope
  | [] => (succeed (), scope)
  | s :: rest =>
    let (run, after) := s.check scope
    if run.isOk then
      let (more, last) := checkAll after rest
      (run.andThen fun _ => more, last)
    else (run, after)
termination_by structural rest => rest

end

end Stmt

namespace Program

/-- Checks a program and gives its metrics. -/
def check (p : Program) : Run Metrics :=
  let body := (Stmt.checkAll .empty p.stmts).1
  body.andThen fun _ => do
    emit (.completed body.tally)
    return body.tally

/-- The metrics of a program, or the first violation in it. -/
def analyze (p : Program) : Except SemanticError Metrics := p.check.outcome

end Program

end StaticCheck
