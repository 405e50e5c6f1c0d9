import StaticCheck.Cursor
import StaticCheck.Expr

/-! # Reading expressions

From the loosest to the tightest binding:

* a choice `condition ? then : else`, whose arms are expressions;
* a chain of `&&` and `||`, which bind alike;
* at most one comparison;
* sums, then products;
* `-` and `!` in front of an operand;
* literals, names, lists and expressions in parentheses.

Each layer is a rule made from two others: `expression`, the whole grammar one level deeper, and
`operand`, the operand of a unary operator one level deeper.  Both are tied together in
`Expr.parser` and `Expr.operandParser` by the number of levels that may still be opened. -/

namespace StaticCheck

namespace Parser

/-! ### Layers -/

variable {m : Type → Type} [Monad m] [Actions m]

/-- A list in brackets.  Items are separated by commas, and none follows the last item. -/
def listLiteral (expression : m Expr) : m Expr := do
  let start := (← current).span
  let _ ← expect (.punct .openBracket)
  let items ←
    if (← current).kind = .punct .closeBracket then pure []
    else do
      let first ← expression
      let rest ← collect do
        if ← accept (.punct .comma) then return some (← expression) else return none
      pure (first :: rest)
  let _ ← expect (.punct .closeBracket)
  return .list items (← spanFrom start)

/-- A literal, a name, a list, or an expression in parentheses, which keeps its own span. -/
def primary (expression : m Expr) : m Expr := do
  let token ← current
  match token.kind with
  | .int digits =>
    let _ ← advance
    return .int digits token.span
  | .real text =>
    let _ ← advance
    return .real (.ofLiteral text) token.span
  | .keyword .trueWord =>
    let _ ← advance
    return .bool true token.span
  | .keyword .falseWord =>
    let _ ← advance
    return .bool false token.span
  | .ident name =>
    let _ ← advance
    return .ident name token.span
  | .punct .openBracket => listLiteral expression
  | .punct .openParen =>
    let _ ← advance
    let inner ← expression
    let _ ← expect (.punct .closeParen)
    return inner
  | found => fail (.unexpected found)

/-- Unary operators in front of a primary expression. -/
def unary (expression operand : m Expr) : m Expr := do
  let token ← current
  match Operator.ofToken? UnaryOp token.kind with
  | none => primary expression
  | some op =>
    let _ ← advance
    let inner ← operand
    return .unary op inner (← spanFrom token.span)

/-- One link of a chain, if an operator of the chain follows. -/
def link? {ω : Type} [Operator ω] (operand : m Expr) : m (Option (Link ω Expr)) := do
  match Operator.ofToken? ω (← current).kind with
  | none => return none
  | some op =>
    let _ ← advance
    return some ⟨op, ← operand⟩

/-- A chain of operands; an operand without links stands for itself. -/
def chain {ω : Type} [Operator ω] (node : Expr → List (Link ω Expr) → Span → Expr)
    (operand : m Expr) : m Expr := do
  let start := (← current).span
  let first ← operand
  let rest ← collect (link? operand)
  if rest.isEmpty then return first
  return node first rest (← spanFrom start)

def multiplicative (expression operand : m Expr) : m Expr :=
  chain .multiplicative (unary expression operand)

def additive (expression operand : m Expr) : m Expr :=
  chain .additive (multiplicative expression operand)

/-- At most one comparison: a second operator behind it is an error. -/
def comparison (expression operand : m Expr) : m Expr := do
  let start := (← current).span
  let left ← additive expression operand
  match Operator.ofToken? CompareOp (← current).kind with
  | none => return left
  | some op =>
    let _ ← advance
    let right ← additive expression operand
    let next ← current
    if next.kind.isComparison then fail (.chainedComparison next.kind)
    else return .compare left (some ⟨op, right⟩) (← spanFrom start)

def logical (expression operand : m Expr) : m Expr :=
  chain .logical (comparison expression operand)

/-- A choice between two expressions, or a chain of conditions alone. -/
def conditional (expression operand : m Expr) : m Expr := do
  let start := (← current).span
  let condition ← logical expression operand
  if ← accept (.punct .question) then
    let thenArm ← expression
    let _ ← expect (.punct .colon)
    let elseArm ← expression
    return .ternary condition thenArm elseArm (← spanFrom start)
  else return condition

end Parser

/-! ### Levels -/

namespace Expr

mutual

/-- Reads an expression with room for so many levels of nesting, its own one included. -/
def parser : Nat → Parser Expr
  | 0 => Parser.fail .tooDeep
  | room + 1 => Parser.conditional (parser room) (operandParser room)

/-- Reads the operand of a unary operator with room for so many levels, its own one included. -/
def operandParser : Nat → Parser Expr
  | 0 => Parser.fail .tooDeep
  | room + 1 => Parser.unary (parser room) (operandParser room)

end

end Expr

end StaticCheck
