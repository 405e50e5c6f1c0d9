import StaticCheck.Cursor

/-! # Failures

What can go wrong with a source text, from its characters to its meaning, and the wording of each
failure. -/

namespace StaticCheck

/-- A violation of the scope and type rules. -/
inductive SemanticError where
  /-- A name is used where no declaration of it is visible. -/
  | undeclared (name : String) (span : Span)
  /-- A name is declared where it may not be declared again. -/
  | redeclared (name : String) (span : Span)
  /-- A condition is not a truth value. -/
  | condition (span : Span)
  /-- The operands of an expression do not fit. -/
  | expression (span : Span)
  /-- A value does not fit the type of the name it is given to. -/
  | assignment (name : String) (span : Span)
deriving DecidableEq

namespace SemanticError

/-- Where the rule is violated. -/
def span : SemanticError → Span
  | undeclared _ span => span
  | redeclared _ span => span
  | condition span => span
  | expression span => span
  | assignment _ span => span

/-- The name the violation is about. -/
def name? : SemanticError → Option String
  | undeclared name _ => some name
  | redeclared name _ => some name
  | condition _ => none
  | expression _ => none
  | assignment name _ => some name

def message : SemanticError → String
  | undeclared name _ => "Variable " ++ name ++ " was not declared"
  | redeclared name _ => "Identifier " ++ name ++ " has multiple declarations"
  | condition _ => "Invalid type in condition"
  | expression _ => "Invalid type in expression"
  | assignment name _ => "Invalid type in assignation of Identifier " ++ name

end SemanticError

/-- Why a check does not succeed. -/
inductive Failure where
  | lexical (detail : String) (span : Span)
  | syntactic (detail : String) (span : Span)
  | semantic (e : SemanticError)
  /-- The source text could not be read. -/
  | io (text : String)
deriving DecidableEq

namespace Failure

def ofLexicalError (e : LexicalError) : Failure := lexical e.detail e.span

def ofReadError : ReadError → Failure
  | .lexical e => ofLexicalError e
  | .syntactic fault span => syntactic fault.detail span

/-- The wording of a failure, with its place if it is one of reading. -/
def message : Failure → String
  | lexical detail span => "Lexer error at " ++ span.describe ++ ": " ++ detail
  | syntactic detail span => "Parser error at " ++ span.describe ++ ": " ++ detail
  | semantic e => e.message
  | io text => "IO error: " ++ text

def span? : Failure → Option Span
  | lexical _ span => some span
  | syntactic _ span => some span
  | semantic e => some e.span
  | io _ => none

end Failure

end StaticCheck
