import StaticCheck.Binary64
import StaticCheck.Token

/-! # Expressions

The syntax trees of expressions.  Operators of one precedence form a flat chain: a first operand
and a list of links, each an operator with its right operand.  Parentheses leave no node.

`Expr.render` writes a tree as text with all its groups in parentheses. -/

namespace StaticCheck

/-! ### Operators -/

/-- The operators in front of an operand. -/
inductive UnaryOp where
  | neg | not
deriving DecidableEq

/-- The operators of a sum. -/
inductive AddOp where
  | add | sub
deriving DecidableEq

/-- The operators of a product. -/
inductive MulOp where
  | mul | div | mod
deriving DecidableEq

/-- The operators of a chain of conditions. -/
inductive LogicOp where
  | and | or
deriving DecidableEq

/-- The operators of a comparison. -/
inductive CompareOp where
  | less | greater | atMost | atLeast | equal | notEqual
deriving DecidableEq

/-- A family of operators, each written with a mark of its own. -/
class Operator (ω : Type) where
  mark : ω → Punct
  /-- All operators of the family. -/
  all : List ω
  find?_mark : ∀ op : ω, (all.find? fun other => mark other = mark op) = some op

namespace Operator

variable {ω : Type} [Operator ω]

/-- The operator of a family that a token stands for. -/
def ofToken? (ω : Type) [Operator ω] : TokenKind → Option ω
  | .punct found => all.find? fun op => mark op = found
  | _ => none

theorem ofToken?_mark (op : ω) : ofToken? ω (.punct (mark op)) = some op := find?_mark op

theorem ofToken?_mark_ne_none (op : ω) : ofToken? ω (.punct (mark op)) ≠ none :=
  Option.ne_none_iff_exists'.2 ⟨op, ofToken?_mark op⟩

theorem ofToken?_eq_some_iff {kind : TokenKind} {op : ω} :
    ofToken? ω kind = some op ↔ kind = .punct (mark op) := by
  constructor
  · intro h
    cases kind with
    | punct found =>
      have hmark := List.find?_some h
      rw [of_decide_eq_true hmark]
    | _ => cases h
  · rintro rfl
    exact ofToken?_mark op

end Operator

def UnaryOp.mark : UnaryOp → Punct
  | neg => .minus
  | not => .bang

def AddOp.mark : AddOp → Punct
  | add => .plus
  | sub => .minus

def MulOp.mark : MulOp → Punct
  | mul => .star
  | div => .slash
  | mod => .percent

def LogicOp.mark : LogicOp → Punct
  | and => .both
  | or => .either

def CompareOp.mark : CompareOp → Punct
  | less => .less
  | greater => .greater
  | atMost => .atMost
  | atLeast => .atLeast
  | equal => .equals
  | notEqual => .notEquals

instance : Operator UnaryOp where
  mark := UnaryOp.mark
  all := [.neg, .not]
  find?_mark op := by cases op <;> rfl

instance : Operator AddOp where
  mark := AddOp.mark
  all := [.add, .sub]
  find?_mark op := by cases op <;> rfl

instance : Operator MulOp where
  mark := MulOp.mark
  all := [.mul, .div, .mod]
  find?_mark op := by cases op <;> rfl

instance : Operator LogicOp where
  mark := LogicOp.mark
  all := [.and, .or]
  find?_mark op := by cases op <;> rfl

instance : Operator CompareOp where
  mark := CompareOp.mark
  all := [.less, .greater, .atMost, .atLeast, .equal, .notEqual]
  find?_mark op := by cases op <;> rfl

/-- Whether the operator asks which side is the greater one, and not only whether they are equal. -/
def CompareOp.isOrdering : CompareOp → Bool
  | less | greater | atMost | atLeast => true
  | equal | notEqual => false

theorem CompareOp.isSome_ofToken? (kind : TokenKind) :
    (Operator.ofToken? CompareOp kind).isSome = kind.isComparison := by
  cases kind with
  | punct mark => cases mark <;> rfl
  | _ => rfl

/-! ### Trees -/

/-- An operator and the operand to its right. -/
structure Link (ω ε : Type) where
  op : ω
  operand : ε
deriving DecidableEq

/-- An expression.  Every node carries the span it was read from. -/
inductive Expr where
  /-- An integer, with its digits as written. -/
  | int (digits : String) (span : Span)
  | real (value : Binary64) (span : Span)
  | bool (value : Bool) (span : Span)
  | list (items : List Expr) (span : Span)
  | ident (name : String) (span : Span)
  | unary (op : UnaryOp) (operand : Expr) (span : Span)
  | additive (first : Expr) (rest : List (Link AddOp Expr)) (span : Span)
  | multiplicative (first : Expr) (rest : List (Link MulOp Expr)) (span : Span)
  | logical (first : Expr) (rest : List (Link LogicOp Expr)) (span : Span)
  /-- A comparison of `left` with the right side, or `left` alone. -/
  | compare (left : Expr) (rhs : Option (Link CompareOp Expr)) (span : Span)
  | ternary (condition thenArm elseArm : Expr) (span : Span)

theorem Link.sizeOf_operand_lt_of_mem {ω ε : Type} [SizeOf ω] [SizeOf ε] {link : Link ω ε}
    {links : List (Link ω ε)} (h : link ∈ links) : sizeOf link.operand < sizeOf links := by
  have smaller := List.sizeOf_lt_of_mem h
  cases link
  simp only [mk.sizeOf_spec] at smaller
  simp only
  omega

namespace Expr

def span : Expr → Span
  | int _ span => span
  | real _ span => span
  | bool _ span => span
  | list _ span => span
  | ident _ span => span
  | unary _ _ span => span
  | additive _ _ span => span
  | multiplicative _ _ span => span
  | logical _ _ span => span
  | compare _ _ span => span
  | ternary _ _ _ span => span

/-! ### Children -/

/-- The operands of a node, from left to right. -/
def children : Expr → List Expr
  | int _ _ | real _ _ | bool _ _ | ident _ _ => []
  | list items _ => items
  | unary _ operand _ => [operand]
  | additive first rest _ => first :: rest.map Link.operand
  | multiplicative first rest _ => first :: rest.map Link.operand
  | logical first rest _ => first :: rest.map Link.operand
  | compare left rhs _ => left :: (rhs.map Link.operand).toList
  | ternary test thenArm elseArm _ => [test, thenArm, elseArm]

theorem sizeOf_lt_of_mem_operands {ω : Type} [SizeOf ω] {first c : Expr} {rest : List (Link ω Expr)}
    (h : c ∈ first :: rest.map Link.operand) : sizeOf c < 1 + sizeOf first + sizeOf rest := by
  rcases List.mem_cons.1 h with rfl | h
  · omega
  · obtain ⟨link, hlink, rfl⟩ := List.mem_map.1 h
    have := Link.sizeOf_operand_lt_of_mem hlink
    omega

theorem sizeOf_lt_of_mem_children {e c : Expr} (h : c ∈ e.children) : sizeOf c < sizeOf e := by
  cases e with
  | int _ _ | real _ _ | bool _ _ | ident _ _ => cases h
  | list items span =>
    have : sizeOf c < sizeOf items := List.sizeOf_lt_of_mem h
    simp only [list.sizeOf_spec]
    omega
  | unary op operand span =>
    obtain rfl := List.mem_singleton.1 h
    simp only [unary.sizeOf_spec]
    omega
  | additive first rest span =>
    have := sizeOf_lt_of_mem_operands h
    simp only [additive.sizeOf_spec]
    omega
  | multiplicative first rest span =>
    have := sizeOf_lt_of_mem_operands h
    simp only [multiplicative.sizeOf_spec]
    omega
  | logical first rest span =>
    have := sizeOf_lt_of_mem_operands h
    simp only [logical.sizeOf_spec]
    omega
  | compare left rhs span =>
    cases rhs with
    | none =>
      obtain rfl := List.mem_singleton.1 h
      simp only [compare.sizeOf_spec]
      omega
    | some link =>
      simp only [compare.sizeOf_spec, Option.some.sizeOf_spec]
      rcases List.mem_cons.1 h with rfl | h
      · omega
      · obtain rfl := List.mem_singleton.1 h
        cases link
        simp only [Link.mk.sizeOf_spec]
        omega
  | ternary test thenArm elseArm span =>
    simp only [ternary.sizeOf_spec]
    simp only [children, List.mem_cons, List.not_mem_nil, or_false] at h
    rcases h with rfl | rfl | rfl <;> omega

/-! ### Text -/

/-- A chain in parentheses, from the texts of its operands. -/
def renderChain (first : String) (rest : List (Link Punct String)) : String :=
  "(" ++ first ++
    String.join (rest.map fun link => " " ++ link.op.spelling ++ " " ++ link.operand) ++ ")"

/-- The text of an expression, with every chain, comparison and choice in parentheses. -/
def render : Expr → String
  | int digits _ => digits
  | real value _ => value.render
  | bool value _ => if value then "true" else "false"
  | list items _ => "[" ++ ", ".intercalate (items.map fun e => e.render) ++ "]"
  | ident name _ => name
  | unary op operand _ => op.mark.spelling ++ operand.render
  | additive first rest _ =>
    renderChain first.render (rest.map fun link => ⟨link.op.mark, link.operand.render⟩)
  | multiplicative first rest _ =>
    renderChain first.render (rest.map fun link => ⟨link.op.mark, link.operand.render⟩)
  | logical first rest _ =>
    renderChain first.render (rest.map fun link => ⟨link.op.mark, link.operand.render⟩)
  | compare left none _ => left.render
  | compare left (some ⟨op, right⟩) _ => renderChain left.render [⟨op.mark, right.render⟩]
  | ternary condition thenArm elseArm _ =>
    "(" ++ condition.render ++ " ? " ++ thenArm.render ++ " : " ++ elseArm.render ++ ")"
termination_by e => sizeOf e
decreasing_by all_goals exact sizeOf_lt_of_mem_children (by grind [children])

end Expr

end StaticCheck
