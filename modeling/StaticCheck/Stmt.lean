import StaticCheck.Expr

/-! # Statements and programs

The syntax trees of statements.  A block is a list of statements in braces; a program is a list of
statements that makes up a whole source text. -/

namespace StaticCheck

/-- Statements in braces. -/
structure Block (σ : Type) where
  stmts : List σ
  span : Span

/-- A declaration of a name with a type and perhaps an initial value. -/
structure Declaration where
  typeName : String
  name : String
  nameSpan : Span
  init : Option Expr
  span : Span

/-- A statement.  Every node carries the span it was read from. -/
inductive Stmt where
  | declare (decl : Declaration) (span : Span)
  | assign (target : String) (targetSpan : Span) (value : Expr) (span : Span)
  | ifElse (condition : Expr) (thenBlock : Block Stmt) (elseBlock : Option (Block Stmt))
      (span : Span)
  | whileDo (condition : Expr) (body : Block Stmt) (span : Span)
  | doWhile (body : Block Stmt) (condition : Expr) (span : Span)
  | block (body : Block Stmt) (span : Span)
  | expr (value : Expr) (span : Span)

/-- A whole source text. -/
structure Program where
  stmts : List Stmt
  span : Span

namespace Stmt

def span : Stmt → Span
  | declare _ span => span
  | assign _ _ _ span => span
  | ifElse _ _ _ span => span
  | whileDo _ _ span => span
  | doWhile _ _ span => span
  | block _ span => span
  | expr _ span => span

/-! ### Expressions in a statement -/

mutual

/-- The outermost expressions of a statement, in source order. -/
def exprs : Stmt → List Expr
  | declare decl _ => decl.init.toList
  | assign _ _ value _ => [value]
  | ifElse condition ⟨thenStmts, _⟩ none _ => condition :: exprsAll thenStmts
  | ifElse condition ⟨thenStmts, _⟩ (some ⟨elseStmts, _⟩) _ =>
    condition :: exprsAll thenStmts ++ exprsAll elseStmts
  | whileDo condition ⟨stmts, _⟩ _ => condition :: exprsAll stmts
  | doWhile ⟨stmts, _⟩ condition _ => exprsAll stmts ++ [condition]
  | block ⟨stmts, _⟩ _ => exprsAll stmts
  | expr value _ => [value]
termination_by structural s => s

/-- The outermost expressions of a list of statements, in source order. -/
def exprsAll : List Stmt → List Expr
  | [] => []
  | s :: rest => s.exprs ++ exprsAll rest
termination_by structural rest => rest

end

end Stmt

/-- The outermost expressions of a program, in source order. -/
def Program.exprs (p : Program) : List Expr := Stmt.exprsAll p.stmts

end StaticCheck
