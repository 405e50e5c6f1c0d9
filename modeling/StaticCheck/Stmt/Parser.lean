import StaticCheck.Expr.Parser
import StaticCheck.Stmt

/-! # Reading statements and programs

The first token of a statement decides what it is, and for a name the token behind it: a second name
makes a declaration with a type of that name, `=` makes an assignment, and anything else makes an
expression statement.

`parse` reads a whole source text.  `parseRepeatedly` starts over on the cursor that the reading
before left behind, whatever its outcome was. -/

namespace StaticCheck

namespace Parser

/-! ### Statements

Each statement is a rule made from two others, for blocks and for expressions. -/

variable {m : Type → Type} [Monad m] [Actions m]

/-- A declaration: a type, a name, perhaps an initial value, and a semicolon. -/
def declaration (expression : m Expr) : m Stmt := do
  let first ← current
  let typeName ← match first.kind.typeName? with
    | some name => do
      let _ ← advance
      pure name
    | none => do
      let (name, _) ← expectName
      pure name
  let (name, nameSpan) ← expectName
  let init ← if ← accept (.punct .assign) then some <$> expression else pure none
  let _ ← expect (.punct .semicolon)
  let span ← spanFrom first.span
  return .declare ⟨typeName, name, nameSpan, init, span⟩ span

def assignment (expression : m Expr) : m Stmt := do
  let start := (← current).span
  let (target, targetSpan) ← expectName
  let _ ← expect (.punct .assign)
  let value ← expression
  let _ ← expect (.punct .semicolon)
  return .assign target targetSpan value (← spanFrom start)

/-- A condition in parentheses. -/
def condition (expression : m Expr) : m Expr := do
  let _ ← expect (.punct .openParen)
  let e ← expression
  let _ ← expect (.punct .closeParen)
  return e

/-- A branch, perhaps with an alternative. -/
def ifElse (block : m (Block Stmt)) (expression : m Expr) : m Stmt := do
  let start := (← current).span
  let _ ← expect (.keyword .ifWord)
  let condition ← condition expression
  let thenBlock ← block
  let elseBlock ← if ← accept (.keyword .elseWord) then some <$> block else pure none
  return .ifElse condition thenBlock elseBlock (← spanFrom start)

/-- A loop that tests its condition first. -/
def whileDo (block : m (Block Stmt)) (expression : m Expr) : m Stmt := do
  let start := (← current).span
  let _ ← expect (.keyword .whileWord)
  let condition ← condition expression
  let body ← block
  return .whileDo condition body (← spanFrom start)

/-- A loop that tests its condition last. -/
def doWhile (block : m (Block Stmt)) (expression : m Expr) : m Stmt := do
  let start := (← current).span
  let _ ← expect (.keyword .doWord)
  let body ← block
  let _ ← expect (.keyword .whileWord)
  let condition ← condition expression
  let _ ← expect (.punct .semicolon)
  return .doWhile body condition (← spanFrom start)

def exprStmt (expression : m Expr) : m Stmt := do
  let start := (← current).span
  let value ← expression
  let _ ← expect (.punct .semicolon)
  return .expr value (← spanFrom start)

def statement (block : m (Block Stmt)) (expression : m Expr) : m Stmt := do
  match (← current).kind with
  | .punct .openBrace =>
    let body ← block
    return .block body body.span
  | .keyword .ifWord => ifElse block expression
  | .keyword .whileWord => whileDo block expression
  | .keyword .doWord => doWhile block expression
  | .keyword word => if word.isType then declaration expression else exprStmt expression
  | .ident _ =>
    match ← peek with
    | .ident _ => declaration expression
    | .punct .assign => assignment expression
    | _ => exprStmt expression
  | _ => exprStmt expression

/-- Statements up to a token at which `done` holds. -/
def statementsUntil (done : TokenKind → Bool) (statement : m Stmt) : m (List Stmt) :=
  collect do
    if done (← current).kind then return none else return some (← statement)

/-- Statements in braces. -/
def braces (statement : m Stmt) : m (Block Stmt) := do
  let start := (← current).span
  let _ ← expect (.punct .openBrace)
  let stmts ← statementsUntil (fun kind => kind = .punct .closeBrace || kind = .eof) statement
  let _ ← expect (.punct .closeBrace)
  return ⟨stmts, ← spanFrom start⟩

/-- Statements up to the end of the text. -/
def program (statement : m Stmt) : m Program := do
  let start := (← current).span
  let stmts ← statementsUntil (fun kind => kind = .eof) statement
  return ⟨stmts, start.merge (← current).span⟩

end Parser

/-! ### Levels -/

namespace Stmt

/-- Reads a block with room for so many levels of nesting, its own one included. -/
def blockParser : Nat → Parser (Block Stmt)
  | 0 => Parser.fail .tooDeep
  | room + 1 => Parser.braces (Parser.statement (blockParser room) (Expr.parser room))

/-- Reads a statement with room for so many levels of nesting below it. -/
def parser (room : Nat) : Parser Stmt := Parser.statement (blockParser room) (Expr.parser room)

end Stmt

/-! ### Programs -/

def Program.parser : Parser Program := Parser.program (Stmt.parser nestingLimit)

/-- Reads a program at a cursor, and gives the cursor behind it. -/
def Cursor.parseProgram (c : Cursor) : Except ReadError Program × Cursor :=
  match Program.parser c with
  | .ok program after => (.ok program, after)
  | .error e after => (.error e, after)

/-- The program that a source text writes. -/
def parse (source : String) : Except ReadError Program :=
  match Cursor.ofSource source with
  | .error e => .error (.lexical e)
  | .ok start => start.parseProgram.1

/-- Reads programs one after the other, each from where the one before stopped. -/
def Cursor.parsePrograms (c : Cursor) : Nat → List (Except ReadError Program)
  | 0 => []
  | times + 1 =>
    let (outcome, after) := c.parseProgram
    outcome :: after.parsePrograms times

/-- Reads a source text as often as asked, each time from where the time before stopped. -/
def parseRepeatedly (source : String) (times : Nat) :
    Except LexicalError (List (Except ReadError Program)) :=
  (Cursor.ofSource source).map fun start => start.parsePrograms times

end StaticCheck
