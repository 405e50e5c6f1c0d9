import StaticCheck.Proofs.Renaming
import StaticCheck.Session

/-! # Wrappers

A comparison without a right side is only its left side.  If it also stands where its left side
stands, it is a wrapper: it has the same text and the same check, and whoever blames it for its type
blames the same place.  `unwrap` removes the wrappers of a tree, at every depth, and nobody can tell
the difference (`unwrap_transparent`). -/

namespace StaticCheck

open Run

/-! ### Trees without wrappers -/

namespace Expr

/-- The node is a comparison without a right side, at the place of its left side. -/
def IsWrapper : Expr → Prop
  | compare left none span => left.span = span
  | _ => False

/-- The expression with every wrapper replaced by what it wraps. -/
def unwrap : Expr → Expr
  | int digits span => int digits span
  | real value span => real value span
  | bool value span => bool value span
  | list items span => list (items.map fun e => e.unwrap) span
  | ident name span => ident name span
  | unary op operand span => unary op operand.unwrap span
  | additive first rest span =>
    additive first.unwrap (rest.map fun link => ⟨link.op, link.operand.unwrap⟩) span
  | multiplicative first rest span =>
    multiplicative first.unwrap (rest.map fun link => ⟨link.op, link.operand.unwrap⟩) span
  | logical first rest span =>
    logical first.unwrap (rest.map fun link => ⟨link.op, link.operand.unwrap⟩) span
  | compare left none span =>
    if left.span = span then left.unwrap else compare left.unwrap none span
  | compare left (some ⟨op, right⟩) span => compare left.unwrap (some ⟨op, right.unwrap⟩) span
  | ternary test thenArm elseArm span =>
    ternary test.unwrap thenArm.unwrap elseArm.unwrap span
termination_by e => sizeOf e
decreasing_by all_goals exact sizeOf_lt_of_mem_children (by grind [children])

theorem unwrap_wrapper {left : Expr} {span : Span} (h : left.span = span) :
    (compare left none span).unwrap = left.unwrap := by
  rw [unwrap, if_pos h]

theorem unwrap_single {left : Expr} {span : Span} (h : left.span ≠ span) :
    (compare left none span).unwrap = compare left.unwrap none span := by
  rw [unwrap, if_neg h]

/-- Wrappers may be stacked, but all of a stack stand at one place. -/
@[simp] theorem span_unwrap (e : Expr) : e.unwrap.span = e.span := by
  induction e with
  | single left span ih =>
    by_cases hspan : left.span = span
    · rw [unwrap_wrapper hspan, ih, hspan]
      rfl
    · rw [unwrap_single hspan]
      rfl
  | int _ _ | real _ _ | bool _ _ | ident _ _ => rw [unwrap]
  | _ => rw [unwrap]; rfl

/-! ### No wrapper is left -/

theorem children_unwrap {e : Expr} (h : ¬ e.IsWrapper) :
    e.unwrap.children = e.children.map unwrap := by
  cases e with
  | compare left rhs span =>
    cases rhs with
    | none =>
      rw [unwrap_single h]
      rfl
    | some link =>
      rw [unwrap]
      rfl
  | int _ _ | real _ _ | bool _ _ | ident _ _ =>
    rw [unwrap]
    rfl
  | list items span =>
    rw [unwrap]
    rfl
  | unary op operand span =>
    rw [unwrap]
    rfl
  | additive first rest span | multiplicative first rest span | logical first rest span =>
    rw [unwrap]
    simp only [children, List.map_cons, List.map_map]
    rfl
  | ternary test thenArm elseArm span =>
    rw [unwrap]
    rfl

theorem not_isWrapper_unwrap {e : Expr} (h : ¬ e.IsWrapper) : ¬ e.unwrap.IsWrapper := by
  cases e with
  | compare left rhs span =>
    cases rhs with
    | none =>
      rw [unwrap_single h]
      intro hspan
      exact h (left.span_unwrap.symm.trans hspan)
    | some link =>
      rw [unwrap]
      exact id
  | _ =>
    rw [unwrap]
    exact id

theorem not_isWrapper_of_mem_nodes_unwrap (e : Expr) : ∀ x ∈ e.unwrap.nodes, ¬ x.IsWrapper := by
  induction e using childInduction with
  | node e ih =>
    by_cases hwrapper : e.IsWrapper
    · cases e with
      | compare left rhs span =>
        cases rhs with
        | none =>
          rw [unwrap_wrapper hwrapper]
          exact ih left List.mem_cons_self
        | some link => exact hwrapper.elim
      | _ => exact hwrapper.elim
    · refine forall_mem_nodes_iff.2 ⟨?_, not_isWrapper_unwrap hwrapper⟩
      rw [children_unwrap hwrapper, List.forall_mem_map]
      exact ih

/-! ### The same text -/

theorem render_unwrap_links {ω : Type} (mark : ω → Punct) {rest : List (Link ω Expr)}
    (h : ∀ link ∈ rest, link.operand.unwrap.render = link.operand.render) :
    ((rest.map fun link => (⟨link.op, link.operand.unwrap⟩ : Link ω Expr)).map
        fun link => (⟨mark link.op, link.operand.render⟩ : Link Punct String)) =
      rest.map fun link => ⟨mark link.op, link.operand.render⟩ := by
  rw [List.map_map]
  apply List.map_congr_left
  intro link hlink
  simp only [Function.comp_apply, h link hlink]

theorem render_unwrap (e : Expr) : e.unwrap.render = e.render := by
  induction e with
  | int _ _ | real _ _ | bool _ _ | ident _ _ => rw [unwrap]
  | list items span ih =>
    rw [unwrap, render, render, List.map_map]
    have hitems : items.map (render ∘ unwrap) = items.map render := List.map_congr_left ih
    exact congrArg (fun texts => "[" ++ ", ".intercalate texts ++ "]") hitems
  | unary op operand span ih => rw [unwrap, render, render, ih]
  | additive first rest span ih ihs =>
    rw [unwrap, render, render, ih, render_unwrap_links AddOp.mark ihs]
  | multiplicative first rest span ih ihs =>
    rw [unwrap, render, render, ih, render_unwrap_links MulOp.mark ihs]
  | logical first rest span ih ihs =>
    rw [unwrap, render, render, ih, render_unwrap_links LogicOp.mark ihs]
  | single left span ih =>
    by_cases hspan : left.span = span
    · rw [unwrap_wrapper hspan, render, ih]
    · rw [unwrap_single hspan, render, render, ih]
  | compare left op right span ihl ihr => rw [unwrap, render, render, ihl, ihr]
  | ternary test thenArm elseArm span ihc iht ihe => rw [unwrap, render, render, ihc, iht, ihe]

end Expr

/-! ### The same check

Removing wrappers keeps all names, so the trees mirror each other under the renaming that changes no
name. -/

theorem SemanticError.rename_id (e : SemanticError) : e.rename id = e := by
  cases e <;> rfl

theorem Run.Mirrors.outcome_eq {α : Type} {run run' : Run α} (h : Run.Mirrors id run run') :
    run'.outcome = run.outcome := by
  rw [h.outcome]
  cases run.outcome with
  | error e => exact congrArg Except.error e.rename_id
  | ok a => rfl

theorem Scope.mirrors_self (scope : Scope) : scope.Mirrors id scope := by
  refine ⟨rfl, rfl, fun name => ?_⟩
  exact (Option.map_id_apply).symm

/-- Recording a node changes nothing of its check. -/
theorem Typing.mirrors_of_announce (e : Expr) {f : String → String} {run run' : Run Ty}
    (h : Run.Mirrors f run run') : Run.Mirrors f (announce e run) run' := by
  rw [← bind_pure run']
  refine mirrors_bind h fun ty => ?_
  exact ⟨rfl, rfl⟩

namespace Expr

variable {scope scope' : Scope}

theorem mirrors_unwrap_operand {e : Expr}
    (h : Run.Mirrors id (e.check scope) (e.unwrap.check scope')) :
    Operand.Mirrors id ⟨e.span, e.check scope⟩ ⟨e.unwrap.span, e.unwrap.check scope'⟩ :=
  ⟨e.span_unwrap, h⟩

/-- The operands of a node and the same operands without wrappers. -/
theorem mirrors_unwrap_operands {ι : Type} {part : ι → Expr} {bare : ι → ι} {items : List ι}
    (hbare : ∀ i, part (bare i) = (part i).unwrap)
    (h : ∀ i ∈ items, Run.Mirrors id ((part i).check scope) ((part i).unwrap.check scope')) :
    List.Forall₂ (Operand.Mirrors id)
      (items.map fun i => ⟨(part i).span, (part i).check scope⟩)
      ((items.map bare).map fun i => ⟨(part i).span, (part i).check scope'⟩) := by
  rw [List.map_map, List.forall₂_map_left_iff, List.forall₂_map_right_iff, List.forall₂_same]
  intro i hi
  simp only [Function.comp_apply, hbare]
  exact mirrors_unwrap_operand (h i hi)

theorem mirrors_check_unwrap (h : scope.Mirrors id scope') (e : Expr) :
    Run.Mirrors id (e.check scope) (e.unwrap.check scope') := by
  induction e with
  | int digits span =>
    rw [unwrap, check, check]
    exact Typing.mirrors_announce _ _ (mirrors_pure _)
  | real value span =>
    rw [unwrap, check, check]
    exact Typing.mirrors_announce _ _ (mirrors_pure _)
  | bool value span =>
    rw [unwrap, check, check]
    exact Typing.mirrors_announce _ _ (mirrors_pure _)
  | ident name span =>
    rw [unwrap, check, check]
    exact Typing.mirrors_announce _ _ (mirrors_ofExcept (h.lookup name span))
  | list items span ih =>
    rw [unwrap, check, check]
    exact Typing.mirrors_announce _ _
      (Typing.mirrors_list (mirrors_unwrap_operands (fun _ => rfl) ih))
  | unary op operand span ih =>
    rw [unwrap, check, check]
    exact Typing.mirrors_announce _ _ (Typing.mirrors_unary op (mirrors_unwrap_operand ih))
  | additive first rest span ih ihs =>
    rw [unwrap, check, check]
    exact Typing.mirrors_announce _ _
      (Typing.mirrors_arithmetic (mirrors_unwrap_operand ih)
        (mirrors_unwrap_operands (fun _ => rfl) ihs))
  | multiplicative first rest span ih ihs =>
    rw [unwrap, check, check]
    exact Typing.mirrors_announce _ _
      (Typing.mirrors_arithmetic (mirrors_unwrap_operand ih)
        (mirrors_unwrap_operands (fun _ => rfl) ihs))
  | logical first rest span ih ihs =>
    rw [unwrap, check, check]
    exact Typing.mirrors_announce _ _
      (Typing.mirrors_logical (mirrors_unwrap_operand ih)
        (mirrors_unwrap_operands (fun _ => rfl) ihs))
  | single left span ih =>
    rw [check]
    by_cases hspan : left.span = span
    · rw [unwrap_wrapper hspan]
      exact Typing.mirrors_of_announce _ ih
    · rw [unwrap_single hspan, check]
      exact Typing.mirrors_announce _ _ ih
  | compare left op right span ihl ihr =>
    rw [unwrap, check, check]
    exact Typing.mirrors_announce _ _
      (Typing.mirrors_comparison op (mirrors_unwrap_operand ihl) (mirrors_unwrap_operand ihr))
  | ternary test thenArm elseArm span ihc iht ihe =>
    rw [unwrap, check, check]
    exact Typing.mirrors_announce _ _
      (Typing.mirrors_ternary span (mirrors_unwrap_operand ihc) (mirrors_unwrap_operand iht)
        (mirrors_unwrap_operand ihe))

theorem mirrors_unwrap (e : Expr) : e.Mirrors id e.unwrap where
  span := e.span_unwrap
  check h := e.mirrors_check_unwrap h

end Expr

/-! ### Statements and programs -/

def Declaration.unwrap (decl : Declaration) : Declaration :=
  { decl with init := decl.init.map Expr.unwrap }

theorem Declaration.mirrors_unwrap (decl : Declaration) : decl.Mirrors id decl.unwrap := by
  refine ⟨rfl, rfl, rfl, ?_, rfl⟩
  unfold Declaration.unwrap
  cases decl.init with
  | none => exact .none
  | some init => exact .some init.mirrors_unwrap

namespace Stmt

mutual

def unwrap : Stmt → Stmt
  | declare decl span => declare decl.unwrap span
  | assign target targetSpan value span => assign target targetSpan value.unwrap span
  | ifElse test ⟨thenStmts, thenSpan⟩ none span =>
    ifElse test.unwrap ⟨unwrapAll thenStmts, thenSpan⟩ none span
  | ifElse test ⟨thenStmts, thenSpan⟩ (some ⟨elseStmts, elseSpan⟩) span =>
    ifElse test.unwrap ⟨unwrapAll thenStmts, thenSpan⟩ (some ⟨unwrapAll elseStmts, elseSpan⟩) span
  | whileDo test ⟨stmts, bodySpan⟩ span =>
    whileDo test.unwrap ⟨unwrapAll stmts, bodySpan⟩ span
  | doWhile ⟨stmts, bodySpan⟩ test span =>
    doWhile ⟨unwrapAll stmts, bodySpan⟩ test.unwrap span
  | block ⟨stmts, bodySpan⟩ span => block ⟨unwrapAll stmts, bodySpan⟩ span
  | expr value span => expr value.unwrap span
termination_by structural s => s

def unwrapAll : List Stmt → List Stmt
  | [] => []
  | s :: rest => s.unwrap :: unwrapAll rest
termination_by structural rest => rest

end

theorem forall₂_unwrapAll {stmts : List Stmt} (h : ∀ s ∈ stmts, s.Mirrors id s.unwrap) :
    List.Forall₂ (Mirrors id) stmts (unwrapAll stmts) := by
  induction stmts with
  | nil => exact .nil
  | cons s rest ih =>
    obtain ⟨hs, hrest⟩ := List.forall_mem_cons.1 h
    exact .cons hs (ih hrest)

theorem mirrors_unwrap (s : Stmt) : s.Mirrors id s.unwrap := by
  induction s with
  | declare decl span => exact mirrors_declare Function.injective_id decl.mirrors_unwrap
  | assign target targetSpan value span =>
    exact mirrors_assign target targetSpan value.mirrors_unwrap
  | ifThen test body span ih => exact mirrors_ifThen test.mirrors_unwrap (forall₂_unwrapAll ih)
  | ifElse test body other span ih ihOther =>
    exact mirrors_ifElse test.mirrors_unwrap (forall₂_unwrapAll ih) (forall₂_unwrapAll ihOther)
  | whileDo test body span ih => exact mirrors_whileDo test.mirrors_unwrap (forall₂_unwrapAll ih)
  | doWhile body test span ih => exact mirrors_doWhile (forall₂_unwrapAll ih) test.mirrors_unwrap
  | block body span ih => exact mirrors_block (forall₂_unwrapAll ih)
  | expr value span => exact mirrors_expr value.mirrors_unwrap

end Stmt

def Program.unwrap (p : Program) : Program := ⟨Stmt.unwrapAll p.stmts, p.span⟩

theorem Program.mirrors_check_unwrap (p : Program) : Run.Mirrors id p.check p.unwrap.check := by
  have hstmts := Stmt.forall₂_unwrapAll fun s (_ : s ∈ p.stmts) => s.mirrors_unwrap
  have hrun := (Stmt.mirrors_checkAll_of_forall₂ hstmts .empty).1
  refine mirrors_bind hrun fun _ => mirrors_bind (mirrors_emit _ _) fun _ => ?_
  rw [Program.unwrap, hrun.tally]
  exact mirrors_pure _

/-- **Wrappers are transparent.**  An expression without its wrappers has the type or the violation
that it has with them, in every scope; it counts the same on top of all that was counted before, and
it has the same text.  A program without its wrappers has the same metrics or the same violation. -/
theorem unwrap_transparent :
    (∀ (e : Expr), ∀ x ∈ e.unwrap.nodes, ¬ x.IsWrapper) ∧
    (∀ (e : Expr) (scope : Scope), (e.unwrap.check scope).outcome = (e.check scope).outcome ∧
      (e.unwrap.check scope).tally = (e.check scope).tally) ∧
    (∀ (e : Expr) (session : Session),
      session.step (.expr e.unwrap) = session.step (.expr e)) ∧
    (∀ e : Expr, e.unwrap.render = e.render) ∧
    ∀ p : Program, p.unwrap.analyze = p.analyze := by
  have hcheck : ∀ (e : Expr) (scope : Scope),
      Run.Mirrors id (e.check scope) (e.unwrap.check scope) :=
    fun e scope => e.mirrors_check_unwrap scope.mirrors_self
  refine ⟨Expr.not_isWrapper_of_mem_nodes_unwrap, ?_, ?_, Expr.render_unwrap, ?_⟩
  · intro e scope
    exact ⟨(hcheck e scope).outcome_eq, (hcheck e scope).tally⟩
  · intro e session
    have hrun := hcheck e session.scope
    simp only [Session.step, hrun.outcome_eq, hrun.tally]
  · intro p
    exact p.mirrors_check_unwrap.outcome_eq

end StaticCheck
