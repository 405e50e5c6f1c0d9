import StaticCheck.Stmt

/-! # Trees and their places

Induction over expressions, which nest through lists of operands, and over statements, which nest
through blocks; and changing the spans of a tree.

`mapSpan σ` applies `σ` to every span of a tree and leaves all else alone.  Two trees are equal up
to their places if their `bare` forms, with the same empty span everywhere, are equal. -/

namespace StaticCheck

/-! ### Expressions -/

namespace Expr

/-- Induction over expressions: a node may use what is known of all its operands. -/
@[elab_as_elim, induction_eliminator]
theorem nodeInduction {motive : Expr → Prop}
    (int : ∀ digits span, motive (.int digits span))
    (real : ∀ value span, motive (.real value span))
    (bool : ∀ value span, motive (.bool value span))
    (list : ∀ items span, (∀ e ∈ items, motive e) → motive (.list items span))
    (ident : ∀ name span, motive (.ident name span))
    (unary : ∀ op operand span, motive operand → motive (.unary op operand span))
    (additive : ∀ first rest span, motive first → (∀ link ∈ rest, motive link.operand) →
      motive (.additive first rest span))
    (multiplicative : ∀ first rest span, motive first → (∀ link ∈ rest, motive link.operand) →
      motive (.multiplicative first rest span))
    (logical : ∀ first rest span, motive first → (∀ link ∈ rest, motive link.operand) →
      motive (.logical first rest span))
    (single : ∀ left span, motive left → motive (.compare left none span))
    (compare : ∀ left op right span, motive left → motive right →
      motive (.compare left (some ⟨op, right⟩) span))
    (ternary : ∀ test thenArm elseArm span, motive test → motive thenArm → motive elseArm →
      motive (.ternary test thenArm elseArm span))
    (e : Expr) : motive e := by
  induction e using render.induct with
  | case1 digits span => exact int digits span
  | case2 value span => exact real value span
  | case3 span => exact bool true span
  | case4 value span => exact bool value span
  | case5 items span ih => exact list items span ih
  | case6 name span => exact ident name span
  | case7 op operand span ih => exact unary op operand span ih
  | case8 first rest span ih ihs => exact additive first rest span ih ihs
  | case9 first rest span ih ihs => exact multiplicative first rest span ih ihs
  | case10 first rest span ih ihs => exact logical first rest span ih ihs
  | case11 left span ih => exact single left span ih
  | case12 left op right span ihl ihr => exact compare left op right span ihl ihr
  | case13 test thenArm elseArm span ihc iht ihe =>
    exact ternary test thenArm elseArm span ihc iht ihe

/-- Applies `σ` to every span of an expression. -/
@[simp] def mapSpan (σ : Span → Span) : Expr → Expr
  | int digits span => int digits (σ span)
  | real value span => real value (σ span)
  | bool value span => bool value (σ span)
  | list items span => list (items.map fun e => e.mapSpan σ) (σ span)
  | ident name span => ident name (σ span)
  | unary op operand span => unary op (operand.mapSpan σ) (σ span)
  | additive first rest span =>
    additive (first.mapSpan σ) (rest.map fun link => ⟨link.op, link.operand.mapSpan σ⟩) (σ span)
  | multiplicative first rest span =>
    multiplicative (first.mapSpan σ) (rest.map fun link => ⟨link.op, link.operand.mapSpan σ⟩)
      (σ span)
  | logical first rest span =>
    logical (first.mapSpan σ) (rest.map fun link => ⟨link.op, link.operand.mapSpan σ⟩) (σ span)
  | compare left none span => compare (left.mapSpan σ) none (σ span)
  | compare left (some ⟨op, right⟩) span =>
    compare (left.mapSpan σ) (some ⟨op, right.mapSpan σ⟩) (σ span)
  | ternary test thenArm elseArm span =>
    ternary (test.mapSpan σ) (thenArm.mapSpan σ) (elseArm.mapSpan σ) (σ span)
termination_by e => sizeOf e
decreasing_by all_goals exact sizeOf_lt_of_mem_children (by grind [children])

end Expr

def Link.mapSpan {ω : Type} (σ : Span → Span) (link : Link ω Expr) : Link ω Expr :=
  ⟨link.op, link.operand.mapSpan σ⟩

/-! ### Statements -/

def Declaration.mapSpan (σ : Span → Span) (decl : Declaration) : Declaration :=
  ⟨decl.typeName, decl.name, σ decl.nameSpan, decl.init.map (Expr.mapSpan σ), σ decl.span⟩

namespace Stmt

mutual

def mapSpan (σ : Span → Span) : Stmt → Stmt
  | declare decl span => declare (decl.mapSpan σ) (σ span)
  | assign target targetSpan value span => assign target (σ targetSpan) (value.mapSpan σ) (σ span)
  | ifElse test ⟨thenStmts, thenSpan⟩ none span =>
    ifElse (test.mapSpan σ) ⟨mapSpanAll σ thenStmts, σ thenSpan⟩ none (σ span)
  | ifElse test ⟨thenStmts, thenSpan⟩ (some ⟨elseStmts, elseSpan⟩) span =>
    ifElse (test.mapSpan σ) ⟨mapSpanAll σ thenStmts, σ thenSpan⟩
      (some ⟨mapSpanAll σ elseStmts, σ elseSpan⟩) (σ span)
  | whileDo test ⟨stmts, bodySpan⟩ span =>
    whileDo (test.mapSpan σ) ⟨mapSpanAll σ stmts, σ bodySpan⟩ (σ span)
  | doWhile ⟨stmts, bodySpan⟩ test span =>
    doWhile ⟨mapSpanAll σ stmts, σ bodySpan⟩ (test.mapSpan σ) (σ span)
  | block ⟨stmts, bodySpan⟩ span => block ⟨mapSpanAll σ stmts, σ bodySpan⟩ (σ span)
  | expr value span => expr (value.mapSpan σ) (σ span)
termination_by structural s => s

def mapSpanAll (σ : Span → Span) : List Stmt → List Stmt
  | [] => []
  | s :: rest => s.mapSpan σ :: mapSpanAll σ rest
termination_by structural rest => rest

end

theorem mapSpanAll_eq_map (σ : Span → Span) (stmts : List Stmt) :
    mapSpanAll σ stmts = stmts.map (mapSpan σ) := by
  induction stmts with
  | nil => rfl
  | cons s rest ih => rw [mapSpanAll, ih, List.map_cons]

end Stmt

namespace Stmt

/-- Induction over statements: a statement may use what is known of all statements in its blocks. -/
@[elab_as_elim, induction_eliminator]
theorem nodeInduction {motive : Stmt → Prop}
    (declare : ∀ decl span, motive (.declare decl span))
    (assign : ∀ target targetSpan value span, motive (.assign target targetSpan value span))
    (ifThen : ∀ test (body : Block Stmt) span, (∀ s ∈ body.stmts, motive s) →
      motive (.ifElse test body none span))
    (ifElse : ∀ test (body other : Block Stmt) span, (∀ s ∈ body.stmts, motive s) →
      (∀ s ∈ other.stmts, motive s) → motive (.ifElse test body (some other) span))
    (whileDo : ∀ test (body : Block Stmt) span, (∀ s ∈ body.stmts, motive s) →
      motive (.whileDo test body span))
    (doWhile : ∀ (body : Block Stmt) test span, (∀ s ∈ body.stmts, motive s) →
      motive (.doWhile body test span))
    (block : ∀ (body : Block Stmt) span, (∀ s ∈ body.stmts, motive s) →
      motive (.block body span))
    (expr : ∀ value span, motive (.expr value span))
    (s : Stmt) : motive s := by
  refine mapSpan.induct motive (fun stmts => ∀ s ∈ stmts, motive s) declare assign ?_ ?_ ?_ ?_ ?_
    expr ?_ ?_ s
  · intro test stmts bodySpan span ih
    exact ifThen test ⟨stmts, bodySpan⟩ span ih
  · intro test stmts bodySpan others otherSpan span ih ihOther
    exact ifElse test ⟨stmts, bodySpan⟩ ⟨others, otherSpan⟩ span ih ihOther
  · intro test stmts bodySpan span ih
    exact whileDo test ⟨stmts, bodySpan⟩ span ih
  · intro stmts bodySpan test span ih
    exact doWhile ⟨stmts, bodySpan⟩ test span ih
  · intro stmts bodySpan span ih
    exact block ⟨stmts, bodySpan⟩ span ih
  · intro s hs
    cases hs
  · intro s rest hs hrest
    exact List.forall_mem_cons.2 ⟨hs, hrest⟩

end Stmt

def Block.mapSpan (σ : Span → Span) (b : Block Stmt) : Block Stmt :=
  ⟨b.stmts.map (Stmt.mapSpan σ), σ b.span⟩

def Program.mapSpan (σ : Span → Span) (p : Program) : Program :=
  ⟨p.stmts.map (Stmt.mapSpan σ), σ p.span⟩

/-! ### Blocks inside statements -/

namespace Stmt

variable (σ : Span → Span)

theorem mapSpan_ifElse (test : Expr) (thenBlock : Block Stmt) (elseBlock : Option (Block Stmt))
    (span : Span) : mapSpan σ (ifElse test thenBlock elseBlock span) =
      ifElse (test.mapSpan σ) (thenBlock.mapSpan σ) (elseBlock.map (Block.mapSpan σ)) (σ span) := by
  cases elseBlock with
  | none => rw [mapSpan, mapSpanAll_eq_map, Block.mapSpan, Option.map_none]
  | some elseBlock =>
    rw [mapSpan, mapSpanAll_eq_map, mapSpanAll_eq_map, Block.mapSpan, Option.map_some,
      Block.mapSpan]

theorem mapSpan_whileDo (test : Expr) (body : Block Stmt) (span : Span) :
    mapSpan σ (whileDo test body span) =
      whileDo (test.mapSpan σ) (body.mapSpan σ) (σ span) := by
  rw [mapSpan, mapSpanAll_eq_map, Block.mapSpan]

theorem mapSpan_doWhile (body : Block Stmt) (test : Expr) (span : Span) :
    mapSpan σ (doWhile body test span) =
      doWhile (body.mapSpan σ) (test.mapSpan σ) (σ span) := by
  rw [mapSpan, mapSpanAll_eq_map, Block.mapSpan]

theorem mapSpan_block (body : Block Stmt) (span : Span) :
    mapSpan σ (block body span) = block (body.mapSpan σ) (σ span) := by
  rw [mapSpan, mapSpanAll_eq_map, Block.mapSpan]

end Stmt

/-! ### Bare programs -/

/-- The tree of a program without its places. -/
def Program.bare (p : Program) : Program := p.mapSpan fun _ => .point 0

end StaticCheck
