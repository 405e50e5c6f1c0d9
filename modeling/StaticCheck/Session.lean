import StaticCheck.Stmt.Checking
import StaticCheck.Stmt.Parser

/-! # Interactive sessions

A session holds a stack of scopes and the counters reached so far, and answers requests on the
innermost scope.  A request that fails keeps what it declared and counted before failing. -/

namespace StaticCheck

/-- The state of a session. -/
structure Session where
  /-- The innermost scope. -/
  scope : Scope
  /-- The scopes around it, from the inside out. -/
  outer : List Scope
  metrics : Metrics

/-- A request to a session. -/
inductive Request where
  | declare (name : String) (ty : Ty) (span : Span)
  | lookup (name : String) (span : Span)
  | get (name : String)
  | contains (name : String)
  /-- Enters the body of a branch or a loop. -/
  | enterBody
  /-- Enters a bare block. -/
  | enterBlock
  /-- Leaves the innermost block, if there is one. -/
  | leave
  /-- Reads a source text and checks its statements. -/
  | source (text : String)
  | stmt (s : Stmt)
  | expr (e : Expr)

/-- The answer to a request that succeeded. -/
inductive Reply where
  | done
  | type (ty : Ty)
  | binding (b : Option Binding)
  | truth (b : Bool)

namespace Session

/-- A session with an empty scope. -/
def start : Session := ⟨.empty, [], 0⟩

/-- Checks statements on the innermost scope up to the first failure. -/
def checkStmts (session : Session) (stmts : List Stmt) : Except Failure Reply × Session :=
  let (run, scope) := Stmt.checkAll session.scope stmts
  let outcome := (run.outcome.map fun _ => Reply.done).mapError Failure.semantic
  (outcome, { session with scope, metrics := session.metrics + run.tally })

/-- Answers a request, and gives the session behind it. -/
def step (session : Session) : Request → Except Failure Reply × Session
  | .declare name ty span =>
    match session.scope.declare name ty span with
    | .error e => (.error (.semantic e), session)
    | .ok scope => (.ok .done, { session with scope })
  | .lookup name span =>
    (((session.scope.lookup name span).map Reply.type).mapError .semantic, session)
  | .get name => (.ok (.binding (session.scope.get? name)), session)
  | .contains name => (.ok (.truth (session.scope.contains name)), session)
  | .enterBody =>
    (.ok .done,
      { session with scope := session.scope.enterBody, outer := session.scope :: session.outer })
  | .enterBlock =>
    (.ok .done,
      { session with scope := session.scope.enterBlock, outer := session.scope :: session.outer })
  | .leave =>
    match session.outer with
    | [] => (.ok .done, session)
    | scope :: outer => (.ok .done, { session with scope, outer })
  | .source text =>
    match parse text with
    | .error e => (.error (.ofReadError e), session)
    | .ok program => session.checkStmts program.stmts
  | .stmt s => session.checkStmts [s]
  | .expr e =>
    let run := e.check session.scope
    ((run.outcome.map Reply.type).mapError .semantic,
      { session with metrics := session.metrics + run.tally })

/-- Answers requests in order, each with the session it leaves behind. -/
def answers (session : Session) : List Request → List (Except Failure Reply × Session)
  | [] => []
  | request :: rest =>
    let step := session.step request
    step :: step.2.answers rest

end Session

end StaticCheck
