import StaticCheck.Stmt

/-! # Tree listings

A syntax tree listed over several lines, one field or element to a line and four spaces to a level.
A value is given as its lines; the operations below put values together. -/

namespace StaticCheck

/-- The lines of a listed value. -/
abbrev Outline := List String

namespace Outline

/-- A value on one line. -/
def atom (text : String) : Outline := [text]

/-- A text in quotes.  The texts of a tree are names and digits, which need no escapes. -/
def quoted (text : String) : Outline := ["\"" ++ text ++ "\""]

/-- A value behind its label. -/
def field (label : String) : Outline → Outline
  | [] => []
  | line :: rest => (label ++ ": " ++ line) :: rest

/-- The lines of a member: one level in, with a comma at the end. -/
def member : Outline → Outline
  | [] => []
  | [line] => ["    " ++ line ++ ","]
  | line :: rest => ("    " ++ line) :: member rest

/-- Members between an opening and a closing text, which share a line if there are none. -/
def group (before after : String) (members : List Outline) : Outline :=
  if members.isEmpty then [before ++ after]
  else before :: members.flatMap member ++ [after]

/-- A value with named fields. -/
def record (name : String) (fields : List (String × Outline)) : Outline :=
  group (name ++ " \x7b") "\x7d" (fields.map fun (label, value) => field label value)

/-- A value with unnamed fields. -/
def tuple (name : String) (members : List Outline) : Outline := group (name ++ "(") ")" members

/-- A list of values. -/
def list (members : List Outline) : Outline := group "[" "]" members

/-- A value that may be missing. -/
def option : Option Outline → Outline
  | none => atom "None"
  | some value => tuple "Some" [value]

end Outline

/-! ### Nodes -/

namespace Span

def outline (s : Span) : Outline :=
  .record "Span" [("start", .atom (toString s.start)), ("end", .atom (toString s.stop))]

end Span

namespace UnaryOp

def tag : UnaryOp → String
  | neg => "Neg"
  | not => "Not"

end UnaryOp

namespace AddOp

def tag : AddOp → String
  | add => "Add"
  | sub => "Sub"

end AddOp

namespace MulOp

def tag : MulOp → String
  | mul => "Mul"
  | div => "Div"
  | mod => "Mod"

end MulOp

namespace LogicOp

def tag : LogicOp → String
  | and => "And"
  | or => "Or"

end LogicOp

namespace CompareOp

def tag : CompareOp → String
  | less => "Lt"
  | greater => "Gt"
  | atMost => "Le"
  | atLeast => "Ge"
  | equal => "Eq"
  | notEqual => "Ne"

end CompareOp

namespace Expr

/-- A listed chain, from the names of its operators and its listed operands. -/
def outlineChain (name : String) (first : Outline) (rest : List (Link String Outline)) : Outline :=
  let links := rest.map fun link => Outline.tuple "" [.atom link.op, link.operand]
  .tuple name [.record "Chain" [("first", first), ("rest", .list links)]]

def outlineNode (kind : Outline) (span : Span) : Outline :=
  .record "Expr" [("kind", kind), ("span", span.outline)]

def outline : Expr → Outline
  | int digits span => outlineNode (.tuple "IntLiteral" [.quoted digits]) span
  | real value span => outlineNode (.tuple "RealLiteral" [.atom value.render]) span
  | bool value span =>
    outlineNode (.tuple "BoolLiteral" [.atom (if value then "true" else "false")]) span
  | list items span =>
    outlineNode (.tuple "List" [.list (items.map fun e => e.outline)]) span
  | ident name span => outlineNode (.tuple "Identifier" [.quoted name]) span
  | unary op operand span =>
    outlineNode (.record "Unary" [("op", .atom op.tag), ("operand", operand.outline)]) span
  | additive first rest span =>
    outlineNode (outlineChain "Additive" first.outline
      (rest.map fun link => ⟨link.op.tag, link.operand.outline⟩)) span
  | multiplicative first rest span =>
    outlineNode (outlineChain "Multiplicative" first.outline
      (rest.map fun link => ⟨link.op.tag, link.operand.outline⟩)) span
  | logical first rest span =>
    outlineNode (outlineChain "Logical" first.outline
      (rest.map fun link => ⟨link.op.tag, link.operand.outline⟩)) span
  | compare left none span =>
    outlineNode (.record "Compare" [("left", left.outline), ("rhs", .option none)]) span
  | compare left (some ⟨op, right⟩) span =>
    outlineNode (.record "Compare" [("left", left.outline),
      ("rhs", .option (some (.tuple "" [.atom op.tag, right.outline])))]) span
  | ternary condition thenArm elseArm span =>
    outlineNode (.record "Ternary" [("condition", condition.outline),
      ("then_expr", thenArm.outline), ("else_expr", elseArm.outline)]) span
termination_by e => sizeOf e
decreasing_by all_goals exact sizeOf_lt_of_mem_children (by grind [children])

end Expr

namespace Declaration

def outline (d : Declaration) : Outline :=
  .record "Declaration" [("type_name", .quoted d.typeName), ("name", .quoted d.name),
    ("name_span", d.nameSpan.outline), ("init", .option (d.init.map Expr.outline)),
    ("span", d.span.outline)]

end Declaration

namespace Stmt

def outlineNode (kind : Outline) (span : Span) : Outline :=
  .record "Stmt" [("kind", kind), ("span", span.outline)]

/-- A listed block, from its listed statements. -/
def outlineBlock (stmts : List Outline) (span : Span) : Outline :=
  .record "Block" [("stmts", .list stmts), ("span", span.outline)]

mutual

def outline : Stmt → Outline
  | declare decl span => outlineNode (.tuple "Declare" [decl.outline]) span
  | assign target targetSpan value span =>
    outlineNode (.record "Assign" [("target", .quoted target),
      ("target_span", targetSpan.outline), ("value", value.outline)]) span
  | ifElse condition ⟨thenStmts, thenSpan⟩ none span =>
    outlineNode (.record "If" [("condition", condition.outline),
      ("then_block", outlineBlock (outlines thenStmts) thenSpan),
      ("else_block", .option none)]) span
  | ifElse condition ⟨thenStmts, thenSpan⟩ (some ⟨elseStmts, elseSpan⟩) span =>
    outlineNode (.record "If" [("condition", condition.outline),
      ("then_block", outlineBlock (outlines thenStmts) thenSpan),
      ("else_block", .option (some (outlineBlock (outlines elseStmts) elseSpan)))]) span
  | whileDo condition ⟨stmts, bodySpan⟩ span =>
    outlineNode (.record "While" [("condition", condition.outline),
      ("body", outlineBlock (outlines stmts) bodySpan)]) span
  | doWhile ⟨stmts, bodySpan⟩ condition span =>
    outlineNode (.record "DoWhile" [("body", outlineBlock (outlines stmts) bodySpan),
      ("condition", condition.outline)]) span
  | block ⟨stmts, bodySpan⟩ span =>
    outlineNode (.tuple "Block" [outlineBlock (outlines stmts) bodySpan]) span
  | expr value span => outlineNode (.tuple "Expr" [value.outline]) span
termination_by structural s => s

def outlines : List Stmt → List Outline
  | [] => []
  | s :: rest => s.outline :: outlines rest
termination_by structural rest => rest

end

end Stmt

def Program.outline (p : Program) : Outline :=
  .record "Program" [("stmts", .list (Stmt.outlines p.stmts)), ("span", p.span.outline)]

end StaticCheck
