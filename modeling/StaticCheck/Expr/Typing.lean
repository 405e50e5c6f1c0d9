import StaticCheck.Run

/-! # Typing expressions

Each rule below finds the type of a node from the runs of its operands, left to right, and counts
the operators of the node.  An undefined operand is let through where nothing depends on its type;
comparisons, chains of conditions and the condition of a choice need to know it.

`Expr.check` applies the rules to a tree and records every node whose type was found. -/

namespace StaticCheck

/-- An operand of a node: where it stands, and what checking it yields. -/
structure Operand where
  span : Span
  run : Run Ty

namespace Typing

open Run

/-- Operands whose types do not conflict with a given one. -/
def agree (reference : Ty) : List Operand → Run Unit
  | [] => return ()
  | operand :: rest => do
    let ty ← operand.run
    require (!ty.conflicts reference) (.expression operand.span)
    agree reference rest

/-- A list, whose items agree with the first one. -/
def list : List Operand → Run Ty
  | [] => return .list
  | first :: rest => do
    agree (← first.run) rest
    return .list

/-- A minus sign in front of a number. -/
def negation (operand : Operand) : Run Ty := do
  count (.ofOperators 1)
  let ty ← operand.run
  require (!ty.isDefined || ty.isNumeric) (.expression operand.span)
  return ty

/-- The opposite of a truth value. -/
def complement (operand : Operand) : Run Ty := do
  count (.ofOperators 1)
  let ty ← operand.run
  require (!ty.isDefined || ty == .bool) (.expression operand.span)
  return .bool

def unary : UnaryOp → Operand → Run Ty
  | .neg => negation
  | .not => complement

/-- A sum or a product: a number first, whose type the others agree with. -/
def arithmetic (first : Operand) (rest : List Operand) : Run Ty := do
  count (.ofOperators rest.length)
  let ty ← first.run
  require (!ty.isDefined || ty.isNumeric) (.expression first.span)
  agree ty rest
  return ty

def allBool : List Operand → Run Unit
  | [] => return ()
  | operand :: rest => do
    let ty ← operand.run
    require (ty == .bool) (.expression operand.span)
    allBool rest

def logical (first : Operand) (rest : List Operand) : Run Ty := do
  count (.ofOperators rest.length)
  allBool (first :: rest)
  return .bool

/-- Whether the operator compares values of two known types. -/
def comparable (op : CompareOp) (left right : Ty) : Bool :=
  if op.isOrdering then left.isNumeric && right.isNumeric else left == right

/-- A comparison.  Its operator counts once both sides have a known type. -/
def comparison (op : CompareOp) (left right : Operand) : Run Ty := do
  let leftTy ← left.run
  let rightTy ← right.run
  let span := left.span.merge right.span
  require (leftTy.isDefined && rightTy.isDefined) (.expression span)
  count (.ofOperators 1)
  require (comparable op leftTy rightTy) (.expression span)
  return .bool

/-- The condition of a branch, a loop or a choice. -/
def condition (operand : Operand) : Run Unit := do
  let ty ← operand.run
  require (ty == .bool) (.condition operand.span)

/-- A choice between two values of one type. -/
def ternary (test thenArm elseArm : Operand) (span : Span) : Run Ty := do
  count .conditional
  condition test
  let thenTy ← thenArm.run
  let elseTy ← elseArm.run
  require (!thenTy.conflicts elseTy) (.expression span)
  return if thenTy.isDefined then thenTy else elseTy

/-- Records the type of an expression once it is found. -/
def announce (e : Expr) (run : Run Ty) : Run Ty := do
  let ty ← run
  emit (.typed e ty)
  return ty

end Typing

namespace Expr

open Typing

/-- Finds the type of an expression in a scope. -/
def check (scope : Scope) : Expr → Run Ty
  | int digits span => announce (int digits span) (pure .int)
  | real value span => announce (real value span) (pure .real)
  | bool value span => announce (bool value span) (pure .bool)
  | list items span =>
    announce (list items span) (Typing.list (items.map fun e => ⟨e.span, e.check scope⟩))
  | ident name span => announce (ident name span) (.ofExcept (scope.lookup name span))
  | unary op operand span =>
    announce (unary op operand span) (Typing.unary op ⟨operand.span, operand.check scope⟩)
  | additive first rest span =>
    announce (additive first rest span)
      (arithmetic ⟨first.span, first.check scope⟩
        (rest.map fun link => ⟨link.operand.span, link.operand.check scope⟩))
  | multiplicative first rest span =>
    announce (multiplicative first rest span)
      (arithmetic ⟨first.span, first.check scope⟩
        (rest.map fun link => ⟨link.operand.span, link.operand.check scope⟩))
  | logical first rest span =>
    announce (logical first rest span)
      (Typing.logical ⟨first.span, first.check scope⟩
        (rest.map fun link => ⟨link.operand.span, link.operand.check scope⟩))
  | compare left none span => announce (compare left none span) (left.check scope)
  | compare left (some ⟨op, right⟩) span =>
    announce (compare left (some ⟨op, right⟩) span)
      (comparison op ⟨left.span, left.check scope⟩ ⟨right.span, right.check scope⟩)
  | ternary test thenArm elseArm span =>
    announce (ternary test thenArm elseArm span)
      (Typing.ternary ⟨test.span, test.check scope⟩ ⟨thenArm.span, thenArm.check scope⟩
        ⟨elseArm.span, elseArm.check scope⟩ span)
termination_by e => sizeOf e
decreasing_by all_goals exact sizeOf_lt_of_mem_children (by grind [children])

def operand (scope : Scope) (e : Expr) : Operand := ⟨e.span, e.check scope⟩

def checkCondition (scope : Scope) (e : Expr) : Run Unit := condition (e.operand scope)

end Expr

end StaticCheck
