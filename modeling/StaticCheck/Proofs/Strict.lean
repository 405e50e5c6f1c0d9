import StaticCheck.Proofs.Counting

/-! # The strict checker

A second checker, for the four types that a declaration can name.  No value is of an unknown type
here, so all rules ask for equal types, and a type name that nobody knows is refused.  It gives the
metrics of a program, or the first violation in it (`Strict.analyze`). -/

namespace StaticCheck

/-! ### Kinds -/

/-- The types of the strict checker. -/
inductive Kind where
  | int | real | bool | list
deriving DecidableEq

namespace Kind

def ty : Kind → Ty
  | int => .int
  | real => .real
  | bool => .bool
  | list => .list

/-- The names of the four types. -/
def names : List String := ["int", "bool", "float", "list"]

def ofName? (name : String) : Option Kind :=
  match name with
  | "int" => some int
  | "bool" => some bool
  | "float" => some real
  | "list" => some list
  | _ => none

def isNumber : Kind → Bool
  | int | real => true
  | bool | list => false

end Kind

namespace Strict

/-! ### Contexts -/

/-- The names visible at one place: what kind each is of, and how deep the block lies that declares
it. -/
structure Context where
  find? : String → Option (Kind × Nat)
  /-- The number of blocks around the place. -/
  depth : Nat
  /-- Whether a name from further out may be declared anew. -/
  shadowing : Bool

namespace Context

def empty : Context := ⟨fun _ => none, 0, false⟩

/-- The kind of a name that is used. -/
def kindOf (context : Context) (name : String) (span : Span) : Except SemanticError Kind :=
  match context.find? name with
  | none => .error (.undeclared name span)
  | some (kind, _) => .ok kind

/-- Whether a name may be declared here. -/
def admits (context : Context) (name : String) : Bool :=
  match context.find? name with
  | none => true
  | some (_, depth) => context.shadowing && depth != context.depth

def bind (context : Context) (name : String) (kind : Kind) : Context :=
  { context with
    find? := fun x => if x = name then some (kind, context.depth) else context.find? x }

/-- The context at the start of the body of a branch or a loop. -/
def enterBody (context : Context) : Context := ⟨context.find?, context.depth + 1, false⟩

/-- The context at the start of a bare block. -/
def enterBlock (context : Context) : Context := ⟨context.find?, context.depth + 1, true⟩

end Context

/-! ### Expressions -/

/-- Fails unless the condition holds. -/
def demand (condition : Bool) (e : SemanticError) : Except SemanticError Unit :=
  if condition then .ok () else .error e

theorem demand_true_bind {α : Type} (e : SemanticError) (next : Unit → Except SemanticError α) :
    (demand true e >>= next) = next () := rfl

/-- Operands of one kind, each with the place where it stands. -/
def allOf (kind : Kind) : List (Span × Except SemanticError Kind) → Except SemanticError Unit
  | [] => return ()
  | (span, result) :: rest => do
    let found ← result
    demand (found == kind) (.expression span)
    allOf kind rest

/-- A chain of numbers, all of the kind of the first one. -/
def numbers (first : Span × Except SemanticError Kind)
    (rest : List (Span × Except SemanticError Kind)) : Except SemanticError Kind := do
  let kind ← first.2
  demand kind.isNumber (.expression first.1)
  allOf kind rest
  return kind

/-- The condition of a branch, a loop or a choice. -/
def condition (test : Span × Except SemanticError Kind) : Except SemanticError Unit := do
  let found ← test.2
  demand (found == .bool) (.condition test.1)

def kind (context : Context) : Expr → Except SemanticError Kind
  | .int _ _ => return .int
  | .real _ _ => return .real
  | .bool _ _ => return .bool
  | .list [] _ => return .list
  | .list (first :: rest) _ => do
    let found ← kind context first
    allOf found (rest.map fun e => (e.span, kind context e))
    return .list
  | .ident name span => context.kindOf name span
  | .unary .neg operand _ => do
    let found ← kind context operand
    demand found.isNumber (.expression operand.span)
    return found
  | .unary .not operand _ => do
    let found ← kind context operand
    demand (found == .bool) (.expression operand.span)
    return .bool
  | .additive first rest _ =>
    numbers (first.span, kind context first)
      (rest.map fun link => (link.operand.span, kind context link.operand))
  | .multiplicative first rest _ =>
    numbers (first.span, kind context first)
      (rest.map fun link => (link.operand.span, kind context link.operand))
  | .logical first rest _ => do
    allOf .bool ((first.span, kind context first) ::
      rest.map fun link => (link.operand.span, kind context link.operand))
    return .bool
  | .compare left none _ => kind context left
  | .compare left (some ⟨op, right⟩) _ => do
    let leftKind ← kind context left
    let rightKind ← kind context right
    let suitable := if op.isOrdering then leftKind.isNumber && rightKind.isNumber
      else leftKind == rightKind
    demand suitable (.expression (left.span.merge right.span))
    return .bool
  | .ternary test thenArm elseArm span => do
    condition (test.span, kind context test)
    let thenKind ← kind context thenArm
    let elseKind ← kind context elseArm
    demand (thenKind == elseKind) (.expression span)
    return thenKind
termination_by e => sizeOf e
decreasing_by all_goals exact Expr.sizeOf_lt_of_mem_children (by grind [Expr.children])

/-! ### Statements -/

/-- The context behind a declaration.  The new name is visible to its own initial value. -/
def declaration (context : Context) (decl : Declaration) : Except SemanticError Context :=
  match Kind.ofName? decl.typeName with
  | none => .error (.undeclared decl.typeName decl.span)
  | some declared => do
    demand (context.admits decl.name) (.redeclared decl.name decl.nameSpan)
    let extended := context.bind decl.name declared
    match decl.init with
    | none => return extended
    | some init => do
      let found ← kind extended init
      demand (found == declared) (.assignment decl.name decl.span)
      return extended

mutual

/-- The context behind a statement. -/
def stmt (context : Context) : Stmt → Except SemanticError Context
  | .declare decl _ => declaration context decl
  | .assign target targetSpan value span => do
    let declared ← context.kindOf target targetSpan
    let found ← kind context value
    demand (found == declared) (.assignment target span)
    return context
  | .ifElse test ⟨thenStmts, _⟩ none _ => do
    condition (test.span, kind context test)
    let _ ← stmts context.enterBody thenStmts
    return context
  | .ifElse test ⟨thenStmts, _⟩ (some ⟨elseStmts, _⟩) _ => do
    condition (test.span, kind context test)
    let _ ← stmts context.enterBody thenStmts
    let _ ← stmts context.enterBody elseStmts
    return context
  | .whileDo test ⟨body, _⟩ _ => do
    condition (test.span, kind context test)
    let _ ← stmts context.enterBody body
    return context
  | .doWhile ⟨body, _⟩ test _ => do
    let inner ← stmts context.enterBody body
    condition (test.span, kind inner test)
    return context
  | .block ⟨body, _⟩ _ => do
    let _ ← stmts context.enterBlock body
    return context
  | .expr value _ => do
    let _ ← kind context value
    return context
termination_by structural s => s

def stmts (context : Context) : List Stmt → Except SemanticError Context
  | [] => return context
  | s :: rest => do
    let next ← stmt context s
    stmts next rest
termination_by structural rest => rest

end

/-- The metrics of a program, or the first violation in it. -/
def analyze (p : Program) : Except SemanticError Metrics := do
  let _ ← stmts .empty p.stmts
  return Stmt.metricsAll p.stmts

end Strict

end StaticCheck
