import StaticCheck.Proofs.Nodes
import StaticCheck.Proofs.Statements

/-! # What a violation blames

Checking raises violations at some twenty places.  Each of them blames a node of the tree that is
checked: a name that is used, a name that is declared, an operand, a condition, a choice, a whole
declaration or a whole assignment, or the two sides of a comparison.  `Stmt.Offence` lists these
cases, and every violation of a program is one of them (`Program.offence_of_analyze`). -/

namespace StaticCheck

/-! ### Statements inside statements -/

namespace Stmt

def blocks : Stmt → List (Block Stmt)
  | ifElse _ thenBlock elseBlock _ => thenBlock :: elseBlock.toList
  | whileDo _ body _ => [body]
  | doWhile body _ _ => [body]
  | block body _ => [body]
  | declare _ _ | assign _ _ _ _ | expr _ _ => []

/-- The outermost expressions of a statement outside its blocks. -/
def ownExprs : Stmt → List Expr
  | declare decl _ => decl.init.toList
  | assign _ _ value _ => [value]
  | ifElse test _ _ _ => [test]
  | whileDo test _ _ => [test]
  | doWhile _ test _ => [test]
  | block _ _ => []
  | expr value _ => [value]

/-- The span of the name that a statement declares or assigns to. -/
def nameSpan? : Stmt → Option Span
  | declare decl _ => some decl.nameSpan
  | assign _ targetSpan _ _ => some targetSpan
  | _ => none

mutual

/-- The statements in the blocks of a statement, at any depth. -/
def nested : Stmt → List Stmt
  | ifElse _ ⟨thenStmts, _⟩ none _ => nodesAll thenStmts
  | ifElse _ ⟨thenStmts, _⟩ (some ⟨elseStmts, _⟩) _ => nodesAll thenStmts ++ nodesAll elseStmts
  | whileDo _ ⟨stmts, _⟩ _ => nodesAll stmts
  | doWhile ⟨stmts, _⟩ _ _ => nodesAll stmts
  | block ⟨stmts, _⟩ _ => nodesAll stmts
  | declare _ _ => []
  | assign _ _ _ _ => []
  | expr _ _ => []
termination_by structural s => s

/-- The statements of a list and those in their blocks, at any depth. -/
def nodesAll : List Stmt → List Stmt
  | [] => []
  | s :: rest => s :: (s.nested ++ nodesAll rest)
termination_by structural rest => rest

end

/-- A statement and the statements in its blocks, at any depth. -/
def nodes (s : Stmt) : List Stmt := s :: s.nested

theorem nodesAll_eq (stmts : List Stmt) : nodesAll stmts = stmts.flatMap nodes := by
  induction stmts with
  | nil => rfl
  | cons s rest ih => rw [nodesAll, ih, List.flatMap_cons, nodes, List.cons_append]

theorem nested_eq (s : Stmt) : s.nested = s.blocks.flatMap fun b => b.stmts.flatMap nodes := by
  cases s with
  | ifElse test thenBlock elseBlock span =>
    cases elseBlock with
    | none => simp [nested, blocks, nodesAll_eq]
    | some elseBlock => simp [nested, blocks, nodesAll_eq]
  | whileDo test body span => simp [nested, blocks, nodesAll_eq]
  | doWhile body test span => simp [nested, blocks, nodesAll_eq]
  | block body span => simp [nested, blocks, nodesAll_eq]
  | declare decl span => rfl
  | assign target targetSpan value span => rfl
  | expr value span => rfl

theorem mem_nodes_self (s : Stmt) : s ∈ s.nodes := List.mem_cons_self

/-- The statements inside a statement of a block are inside the statement of the block. -/
theorem mem_nodes_of_mem_blocks {s x y : Stmt} {b : Block Stmt} (hb : b ∈ s.blocks)
    (hx : x ∈ b.stmts) (hy : y ∈ x.nodes) : y ∈ s.nodes := by
  rw [nodes, nested_eq]
  exact List.mem_cons_of_mem s (List.mem_flatMap.2 ⟨b, hb, List.mem_flatMap.2 ⟨x, hx, hy⟩⟩)

/-- Induction over statements through their blocks, where all kinds of statements are treated
alike. -/
theorem blockInduction {motive : Stmt → Prop}
    (node : ∀ s : Stmt, (∀ b ∈ s.blocks, ∀ x ∈ b.stmts, motive x) → motive s) (s : Stmt) :
    motive s := by
  induction s with
  | declare | assign | expr => exact node _ (fun b hb => by cases hb)
  | ifThen _ _ _ ih | whileDo _ _ _ ih | doWhile _ _ _ ih | block _ _ ih =>
    exact node _ (List.forall_mem_singleton.2 ih)
  | ifElse _ _ _ _ ih ihOther =>
    exact node _ (List.forall_mem_cons.2 ⟨ih, List.forall_mem_singleton.2 ihOther⟩)

end Stmt

namespace Program

/-- All statements of a program, at any depth. -/
def stmtNodes (p : Program) : List Stmt := p.stmts.flatMap Stmt.nodes

/-- All nodes of all expressions of a program. -/
def exprNodes (p : Program) : List Expr :=
  p.stmtNodes.flatMap fun s => s.ownExprs.flatMap Expr.nodes

end Program

/-! ### Runs and their violations -/

namespace Run

variable {α β : Type} {Q : SemanticError → Prop}

/-- If the run fails, the violation is one of `Q`. -/
def Blames (Q : SemanticError → Prop) (run : Run α) : Prop :=
  ∀ e, run.outcome = .error e → Q e

theorem Blames.mono {Q' : SemanticError → Prop} {run : Run α} (h : run.Blames Q)
    (hQ : ∀ e, Q e → Q' e) : run.Blames Q' := fun e he => hQ e (h e he)

theorem blames_pure (a : α) : (pure a : Run α).Blames Q := by
  intro e he
  cases he

theorem blames_bind {run : Run α} {next : α → Run β} (hrun : run.Blames Q)
    (hnext : ∀ a, (next a).Blames Q) : (run >>= next).Blames Q := by
  intro e he
  change (run.andThen next).outcome = .error e at he
  unfold andThen at he
  cases houtcome : run.outcome with
  | ok a =>
    rw [houtcome] at he
    exact hnext a e he
  | error first =>
    rw [houtcome] at he
    cases he
    exact hrun _ houtcome

theorem blames_count (tally : Metrics) : (count tally).Blames Q := by
  intro e he
  cases he

theorem blames_emit (event : Event) : (emit event).Blames Q := by
  intro e he
  cases he

theorem blames_fail {e : SemanticError} (h : Q e) : (fail e : Run α).Blames Q := by
  intro e' he
  cases he
  exact h

theorem blames_require {condition : Bool} {e : SemanticError} (h : Q e) :
    (require condition e).Blames Q := by
  unfold require
  split
  · exact blames_pure ()
  · exact blames_fail h

end Run

/-! ### Rules -/

namespace Typing

open Run

variable {Q : SemanticError → Prop}

/-- The operand fails with one of `Q`, and so does a rule that blames it. -/
structure Faulty (Q : SemanticError → Prop) (o : Operand) : Prop where
  run : o.run.Blames Q
  self : Q (.expression o.span)

theorem blames_announce {e : Expr} {run : Run Ty} (h : run.Blames Q) :
    (announce e run).Blames Q := by
  refine blames_bind h fun ty => ?_
  exact blames_bind (blames_emit _) fun _ => blames_pure ty

theorem blames_agree {reference : Ty} {operands : List Operand} (h : ∀ o ∈ operands, Faulty Q o) :
    (agree reference operands).Blames Q := by
  induction operands with
  | nil => exact blames_pure ()
  | cons o rest ih =>
    obtain ⟨ho, hrest⟩ := List.forall_mem_cons.1 h
    refine blames_bind ho.run fun ty => ?_
    exact blames_bind (blames_require ho.self) fun _ => ih hrest

theorem blames_list {operands : List Operand} (h : ∀ o ∈ operands, Faulty Q o) :
    (list operands).Blames Q := by
  cases operands with
  | nil => exact blames_pure _
  | cons first rest =>
    obtain ⟨hfirst, hrest⟩ := List.forall_mem_cons.1 h
    refine blames_bind hfirst.run fun ty => ?_
    exact blames_bind (blames_agree hrest) fun _ => blames_pure _

theorem blames_unary {op : UnaryOp} {o : Operand} (h : Faulty Q o) : (unary op o).Blames Q := by
  cases op with
  | neg =>
    refine blames_bind (blames_count _) fun _ => blames_bind h.run fun ty => ?_
    exact blames_bind (blames_require h.self) fun _ => blames_pure ty
  | not =>
    refine blames_bind (blames_count _) fun _ => blames_bind h.run fun ty => ?_
    exact blames_bind (blames_require h.self) fun _ => blames_pure _

theorem blames_arithmetic {first : Operand} {rest : List Operand}
    (h : ∀ o ∈ first :: rest, Faulty Q o) : (arithmetic first rest).Blames Q := by
  obtain ⟨hfirst, hrest⟩ := List.forall_mem_cons.1 h
  refine blames_bind (blames_count _) fun _ => blames_bind hfirst.run fun ty => ?_
  refine blames_bind (blames_require hfirst.self) fun _ => ?_
  exact blames_bind (blames_agree hrest) fun _ => blames_pure ty

theorem blames_allBool {operands : List Operand} (h : ∀ o ∈ operands, Faulty Q o) :
    (allBool operands).Blames Q := by
  induction operands with
  | nil => exact blames_pure ()
  | cons o rest ih =>
    obtain ⟨ho, hrest⟩ := List.forall_mem_cons.1 h
    refine blames_bind ho.run fun ty => ?_
    exact blames_bind (blames_require ho.self) fun _ => ih hrest

theorem blames_logical {first : Operand} {rest : List Operand}
    (h : ∀ o ∈ first :: rest, Faulty Q o) : (logical first rest).Blames Q := by
  refine blames_bind (blames_count _) fun _ => ?_
  exact blames_bind (blames_allBool h) fun _ => blames_pure _

theorem blames_comparison {op : CompareOp} {left right : Operand} (hl : left.run.Blames Q)
    (hr : right.run.Blames Q) (h : Q (.expression (left.span.merge right.span))) :
    (comparison op left right).Blames Q := by
  refine blames_bind hl fun leftTy => blames_bind hr fun rightTy => ?_
  refine blames_bind (blames_require h) fun _ => blames_bind (blames_count _) fun _ => ?_
  exact blames_bind (blames_require h) fun _ => blames_pure _

theorem blames_condition {o : Operand} (ho : o.run.Blames Q) (h : Q (.condition o.span)) :
    (condition o).Blames Q :=
  blames_bind ho fun _ => blames_require h

theorem blames_ternary {test thenArm elseArm : Operand} {span : Span} (htest : test.run.Blames Q)
    (hcondition : Q (.condition test.span)) (hthen : thenArm.run.Blames Q)
    (helse : elseArm.run.Blames Q) (h : Q (.expression span)) :
    (ternary test thenArm elseArm span).Blames Q := by
  refine blames_bind (blames_count _) fun _ => ?_
  refine blames_bind (blames_condition htest hcondition) fun _ => ?_
  refine blames_bind hthen fun thenTy => blames_bind helse fun elseTy => ?_
  exact blames_bind (blames_require h) fun _ => blames_pure _

end Typing

theorem Scope.blames_lookup {Q : SemanticError → Prop} {scope : Scope} {name : String} {span : Span}
    (h : Q (.undeclared name span)) : (Run.ofExcept (scope.lookup name span)).Blames Q := by
  unfold Scope.lookup
  split
  · exact Run.blames_fail h
  · exact Run.blames_pure _

/-! ### Expressions -/

namespace Expr

/-- The violations that blame one of the given nodes. -/
inductive Offence (nodes : List Expr) : SemanticError → Prop
  | undeclared {name : String} {span : Span} : ident name span ∈ nodes →
      Offence nodes (.undeclared name span)
  | expression {e : Expr} : e ∈ nodes → Offence nodes (.expression e.span)
  | condition {e : Expr} : e ∈ nodes → Offence nodes (.condition e.span)
  | comparison {left right : Expr} {op : CompareOp} {span : Span} :
      compare left (some ⟨op, right⟩) span ∈ nodes →
      Offence nodes (.expression (left.span.merge right.span))

theorem Offence.mono {nodes nodes' : List Expr} {err : SemanticError} (h : Offence nodes err)
    (hsub : ∀ x ∈ nodes, x ∈ nodes') : Offence nodes' err := by
  cases h with
  | undeclared hx => exact .undeclared (hsub _ hx)
  | expression hx => exact .expression (hsub _ hx)
  | condition hx => exact .condition (hsub _ hx)
  | comparison hx => exact .comparison (hsub _ hx)

variable {scope : Scope}

theorem mem_nodes_of_mem_children {c e x : Expr} (hc : c ∈ e.children) (hx : x ∈ c.nodes) :
    x ∈ e.nodes := by
  rw [nodes_eq]
  exact List.mem_append_left _ (List.mem_flatMap.2 ⟨c, hc, hx⟩)

/-- The operands of a node are nodes as well. -/
theorem mem_nodes_of_mem_nodes {c e x : Expr} (hx : x ∈ e.nodes) (hc : c ∈ x.children) :
    c ∈ e.nodes := by
  induction e using childInduction with
  | node e ih =>
    rw [nodes_eq, List.mem_append, List.mem_flatMap, List.mem_singleton] at hx
    rcases hx with ⟨d, hd, hx⟩ | rfl
    · exact mem_nodes_of_mem_children hd (ih d hd hx)
    · exact mem_nodes_of_mem_children hc c.mem_nodes_self

/-- A violation in an operand is one in the node. -/
theorem blames_child {c e : Expr} (hc : c ∈ e.children)
    (h : (c.check scope).Blames (Offence c.nodes)) : (c.check scope).Blames (Offence e.nodes) :=
  h.mono fun _ hoffence => hoffence.mono fun _ => mem_nodes_of_mem_children hc

theorem mem_nodes_child {c e : Expr} (hc : c ∈ e.children) : c ∈ e.nodes :=
  mem_nodes_of_mem_children hc c.mem_nodes_self

theorem faulty_child {c e : Expr} (hc : c ∈ e.children)
    (h : (c.check scope).Blames (Offence c.nodes)) :
    Typing.Faulty (Offence e.nodes) ⟨c.span, c.check scope⟩ :=
  ⟨blames_child hc h, .expression (mem_nodes_child hc)⟩

/-- The operands of a chain. -/
theorem faulty_links {ω : Type} {e first : Expr} {rest : List (Link ω Expr)}
    (hchildren : e.children = first :: rest.map Link.operand)
    (hfirst : (first.check scope).Blames (Offence first.nodes))
    (hrest : ∀ link ∈ rest, (link.operand.check scope).Blames (Offence link.operand.nodes)) :
    ∀ o ∈ (⟨first.span, first.check scope⟩ : Operand) ::
        rest.map fun link => ⟨link.operand.span, link.operand.check scope⟩,
      Typing.Faulty (Offence e.nodes) o := by
  have hmem : ∀ c, c = first ∨ (∃ link ∈ rest, link.operand = c) → c ∈ e.children := by
    intro c hc
    rw [hchildren, List.mem_cons, List.mem_map]
    exact hc
  refine List.forall_mem_cons.2 ⟨faulty_child (hmem first (.inl rfl)) hfirst, fun o ho => ?_⟩
  obtain ⟨link, hlink, rfl⟩ := List.mem_map.1 ho
  exact faulty_child (hmem _ (.inr ⟨link, hlink, rfl⟩)) (hrest link hlink)

/-- A violation in an expression blames one of its nodes. -/
theorem blames_check (scope : Scope) (e : Expr) : (e.check scope).Blames (Offence e.nodes) := by
  induction e with
  | int digits span =>
    rw [check]
    exact Typing.blames_announce (Run.blames_pure _)
  | real value span =>
    rw [check]
    exact Typing.blames_announce (Run.blames_pure _)
  | bool value span =>
    rw [check]
    exact Typing.blames_announce (Run.blames_pure _)
  | list items span ih =>
    rw [check]
    refine Typing.blames_announce (Typing.blames_list fun o ho => ?_)
    obtain ⟨e, he, rfl⟩ := List.mem_map.1 ho
    exact faulty_child he (ih e he)
  | ident name span =>
    rw [check]
    exact Typing.blames_announce (Scope.blames_lookup (.undeclared (mem_nodes_self _)))
  | unary op operand span ih =>
    rw [check]
    exact Typing.blames_announce (Typing.blames_unary (faulty_child List.mem_cons_self ih))
  | additive first rest span ih ihs =>
    rw [check]
    exact Typing.blames_announce (Typing.blames_arithmetic (faulty_links rfl ih ihs))
  | multiplicative first rest span ih ihs =>
    rw [check]
    exact Typing.blames_announce (Typing.blames_arithmetic (faulty_links rfl ih ihs))
  | logical first rest span ih ihs =>
    rw [check]
    exact Typing.blames_announce (Typing.blames_logical (faulty_links rfl ih ihs))
  | single left span ih =>
    rw [check]
    exact Typing.blames_announce (blames_child List.mem_cons_self ih)
  | compare left op right span ihl ihr =>
    rw [check]
    refine Typing.blames_announce (Typing.blames_comparison ?_ ?_ ?_)
    · exact blames_child (by simp [children]) ihl
    · exact blames_child (by simp [children]) ihr
    · exact .comparison (mem_nodes_self _)
  | ternary test thenArm elseArm span ihc iht ihe =>
    rw [check]
    refine Typing.blames_announce (Typing.blames_ternary ?_ ?_ ?_ ?_ ?_)
    · exact blames_child (by simp [children]) ihc
    · exact .condition (mem_nodes_child (by simp [children]))
    · exact blames_child (by simp [children]) iht
    · exact blames_child (by simp [children]) ihe
    · exact .expression (mem_nodes_self _)

theorem blames_checkCondition (scope : Scope) (e : Expr) :
    (e.checkCondition scope).Blames (Offence e.nodes) :=
  Typing.blames_condition (blames_check scope e) (.condition e.mem_nodes_self)

end Expr

/-! ### Statements -/

namespace Stmt

/-- The violations that blame one of the given statements, or a node of one of their expressions. -/
inductive Offence (stmts : List Stmt) : SemanticError → Prop
  | expr {s : Stmt} {e : Expr} {err : SemanticError} : s ∈ stmts → e ∈ s.ownExprs →
      Expr.Offence e.nodes err → Offence stmts err
  | redeclared {decl : Declaration} {span : Span} : declare decl span ∈ stmts →
      Offence stmts (.redeclared decl.name decl.nameSpan)
  | undeclared {target : String} {targetSpan span : Span} {value : Expr} :
      assign target targetSpan value span ∈ stmts → Offence stmts (.undeclared target targetSpan)
  | initial {decl : Declaration} {span : Span} : declare decl span ∈ stmts →
      Offence stmts (.assignment decl.name decl.span)
  | assigned {target : String} {targetSpan span : Span} {value : Expr} :
      assign target targetSpan value span ∈ stmts → Offence stmts (.assignment target span)

theorem Offence.mono {stmts stmts' : List Stmt} {err : SemanticError} (h : Offence stmts err)
    (hsub : ∀ s ∈ stmts, s ∈ stmts') : Offence stmts' err := by
  cases h with
  | expr hs he h => exact .expr (hsub _ hs) he h
  | redeclared hs => exact .redeclared (hsub _ hs)
  | undeclared hs => exact .undeclared (hsub _ hs)
  | initial hs => exact .initial (hsub _ hs)
  | assigned hs => exact .assigned (hsub _ hs)

variable {scope : Scope}

/-- A violation in an expression of a statement is one in the statement. -/
theorem blames_own {α : Type} {s : Stmt} {e : Expr} {run : Run α} (he : e ∈ s.ownExprs)
    (h : run.Blames (Expr.Offence e.nodes)) : run.Blames (Offence s.nodes) :=
  h.mono fun _ => .expr s.mem_nodes_self he

theorem blames_declaration {decl : Declaration} {span : Span} :
    (decl.check scope).1.Blames (Offence (declare decl span).nodes) := by
  have hself := mem_nodes_self (declare decl span)
  cases hblocks : scope.blocks decl.name with
  | true =>
    rw [Declaration.check_of_blocks hblocks]
    exact Run.blames_fail (.redeclared hself)
  | false =>
    rw [Declaration.check_of_not_blocks hblocks]
    refine Run.blames_bind (Run.blames_count _) fun _ => ?_
    refine Run.blames_bind (Run.blames_emit _) fun _ => ?_
    cases hinit : decl.init with
    | none => exact Run.blames_pure ()
    | some init =>
      have hown : init ∈ (declare decl span).ownExprs := by
        simp [ownExprs, hinit]
      refine Run.blames_bind (blames_own hown (init.blames_check _)) fun found => ?_
      exact Run.blames_require (.initial hself)

theorem blames_enclose {Q : SemanticError → Prop} {inner : Scope} {body : Run Unit × Scope}
    (h : body.1.Blames Q) : (enclose inner body).1.Blames Q := by
  refine Run.blames_bind (Run.blames_emit _) fun _ => ?_
  exact Run.blames_bind h fun _ => Run.blames_emit _

theorem blames_checkAll {Q : SemanticError → Prop} {stmts : List Stmt}
    (h : ∀ s ∈ stmts, ∀ scope, (s.check scope).1.Blames Q) (scope : Scope) :
    (checkAll scope stmts).1.Blames Q := by
  induction stmts generalizing scope with
  | nil => exact Run.blames_pure ()
  | cons s rest ih =>
    obtain ⟨hs, hrest⟩ := List.forall_mem_cons.1 h
    cases hok : (s.check scope).1.outcome with
    | ok u =>
      rw [checkAll_cons_of_ok hok]
      exact Run.blames_bind (hs scope) fun _ => ih hrest _
    | error e =>
      rw [checkAll_cons_of_error hok]
      exact hs scope

/-- A violation in a block is one in its statement. -/
theorem blames_block {s : Stmt} {b : Block Stmt} (hb : b ∈ s.blocks)
    (h : ∀ x ∈ b.stmts, ∀ scope, (x.check scope).1.Blames (Offence x.nodes)) (inner scope : Scope) :
    (enclose inner (checkAll scope b.stmts)).1.Blames (Offence s.nodes) := by
  refine blames_enclose (blames_checkAll (fun x hx scope => ?_) scope)
  exact (h x hx scope).mono fun _ hoffence => hoffence.mono fun _ =>
    mem_nodes_of_mem_blocks hb hx

/-- A violation in a statement blames it, a statement in its blocks, or a node of an expression. -/
theorem blames_check (scope : Scope) (s : Stmt) : (s.check scope).1.Blames (Offence s.nodes) := by
  induction s generalizing scope with
  | declare decl span => exact blames_declaration
  | assign target targetSpan value span =>
    have hself := mem_nodes_self (assign target targetSpan value span)
    refine Run.blames_bind (Scope.blames_lookup (.undeclared hself)) fun declared => ?_
    refine Run.blames_bind (blames_own List.mem_cons_self (value.blames_check scope)) fun _ => ?_
    exact Run.blames_require (.assigned hself)
  | ifThen test body span ih =>
    rw [check_ifThen]
    refine Run.blames_bind (Run.blames_count _) fun _ => ?_
    refine Run.blames_bind (blames_own List.mem_cons_self (test.blames_checkCondition scope))
      fun _ => ?_
    exact blames_block List.mem_cons_self (fun x hx scope => ih x hx scope) _ _
  | ifElse test body other span ih ihOther =>
    rw [check_ifElse]
    refine Run.blames_bind (Run.blames_count _) fun _ => ?_
    refine Run.blames_bind (blames_own List.mem_cons_self (test.blames_checkCondition scope))
      fun _ => ?_
    refine Run.blames_bind (blames_block List.mem_cons_self (fun x hx scope => ih x hx scope) _ _)
      fun _ => ?_
    exact blames_block (List.mem_cons_of_mem _ List.mem_cons_self)
      (fun x hx scope => ihOther x hx scope) _ _
  | whileDo test body span ih =>
    rw [check_whileDo]
    refine Run.blames_bind (Run.blames_count _) fun _ => ?_
    refine Run.blames_bind (blames_own List.mem_cons_self (test.blames_checkCondition scope))
      fun _ => ?_
    exact blames_block List.mem_cons_self (fun x hx scope => ih x hx scope) _ _
  | doWhile body test span ih =>
    rw [check_doWhile]
    refine Run.blames_bind (Run.blames_count _) fun _ => ?_
    refine Run.blames_bind (blames_block List.mem_cons_self (fun x hx scope => ih x hx scope) _ _)
      fun _ => ?_
    exact blames_own List.mem_cons_self (test.blames_checkCondition _)
  | block body span ih =>
    rw [check_block]
    exact blames_block List.mem_cons_self (fun x hx scope => ih x hx scope) _ _
  | expr value span =>
    rw [check_expr]
    refine Run.blames_bind (blames_own List.mem_cons_self (value.blames_check scope)) fun _ => ?_
    exact Run.blames_pure ()

end Stmt

/-- **Every violation blames a node.**  The violation of a program is about one of its statements,
or about a node of one of its expressions. -/
theorem Program.offence_of_analyze {p : Program} {err : SemanticError}
    (h : p.analyze = .error err) : Stmt.Offence p.stmtNodes err := by
  have hall : (Stmt.checkAll .empty p.stmts).1.Blames (Stmt.Offence p.stmtNodes) := by
    refine Stmt.blames_checkAll (fun s hs scope => ?_) _
    exact (Stmt.blames_check scope s).mono fun _ hoffence => hoffence.mono fun x hx =>
      List.mem_flatMap.2 ⟨s, hs, hx⟩
  have hcheck : p.check.Blames (Stmt.Offence p.stmtNodes) := by
    refine Run.blames_bind hall fun _ => ?_
    exact Run.blames_bind (Run.blames_emit _) fun _ => Run.blames_pure _
  exact hcheck err h

end StaticCheck
