import StaticCheck.Proofs.Statements
import StaticCheck.Proofs.Trees

/-! # Checking a tree whose places have changed

A relocation is a map of spans under which the smallest span around two places goes to the smallest
span around their images.  No rule of the checker looks at a place: a check of the relocated tree
does what the check of the tree does, step by step, and reports and records the relocated places
(`Expr.check_mapSpan`, `Stmt.check_mapSpan`, `Program.analyze_mapSpan`). -/

namespace StaticCheck

/-- The map of spans keeps the smallest span around two places. -/
def Relocates (σ : Span → Span) : Prop := ∀ a b : Span, σ (a.merge b) = (σ a).merge (σ b)

/-! ### Relocated results -/

def SemanticError.mapSpan (σ : Span → Span) : SemanticError → SemanticError
  | undeclared name span => undeclared name (σ span)
  | redeclared name span => redeclared name (σ span)
  | condition span => condition (σ span)
  | expression span => expression (σ span)
  | assignment name span => assignment name (σ span)

@[simp] theorem SemanticError.span_mapSpan (σ : Span → Span) (e : SemanticError) :
    (e.mapSpan σ).span = σ e.span := by
  cases e <;> rfl

def Event.mapSpan (σ : Span → Span) : Event → Event
  | typed e ty => typed (e.mapSpan σ) ty
  | declared name ty depth => declared name ty depth
  | entered depth bindings => entered depth bindings
  | left depth => left depth
  | completed metrics => completed metrics

def Binding.mapSpan (σ : Span → Span) (b : Binding) : Binding := { b with span := σ b.span }

def Scope.mapSpan (σ : Span → Span) (scope : Scope) : Scope :=
  { scope with bindings := scope.bindings.map (Binding.mapSpan σ) }

namespace Run

variable {α β : Type}

def mapSpan (σ : Span → Span) (run : Run α) : Run α :=
  ⟨run.outcome.mapError (SemanticError.mapSpan σ), run.tally, run.events.map (Event.mapSpan σ)⟩

variable (σ : Span → Span)

theorem mapSpan_bind (run : Run α) (next : α → Run β) :
    (run >>= next).mapSpan σ = run.mapSpan σ >>= fun a => (next a).mapSpan σ := by
  obtain ⟨outcome, tally, events⟩ := run
  cases outcome with
  | error e => rfl
  | ok a =>
    change Run.mapSpan σ ⟨(next a).outcome, tally + (next a).tally, events ++ (next a).events⟩ =
      ⟨(next a).outcome.mapError _, tally + (next a).tally,
        events.map _ ++ (next a).events.map _⟩
    rw [mapSpan, List.map_append]

@[simp] theorem mapSpan_pure (a : α) : (pure a : Run α).mapSpan σ = pure a := rfl

@[simp] theorem mapSpan_count (tally : Metrics) : (count tally).mapSpan σ = count tally := rfl

@[simp] theorem mapSpan_emit (event : Event) :
    (emit event).mapSpan σ = emit (event.mapSpan σ) := rfl

@[simp] theorem mapSpan_ofExcept (result : Except SemanticError α) :
    (ofExcept result).mapSpan σ = ofExcept (result.mapError (SemanticError.mapSpan σ)) := by
  cases result <;> rfl

@[simp] theorem mapSpan_require (condition : Bool) (e : SemanticError) :
    (require condition e).mapSpan σ = require condition (e.mapSpan σ) := by
  cases condition <;> rfl

@[simp] theorem isOk_mapSpan (run : Run α) : (run.mapSpan σ).isOk = run.isOk := by
  obtain ⟨outcome, tally, events⟩ := run
  cases outcome <;> rfl

end Run

/-! ### Scopes -/

namespace Scope

variable (σ : Span → Span) (scope : Scope)

@[simp] theorem depth_mapSpan : (scope.mapSpan σ).depth = scope.depth := rfl

@[simp] theorem size_mapSpan : (scope.mapSpan σ).size = scope.size := List.length_map _

theorem enterBody_mapSpan : (scope.mapSpan σ).enterBody = scope.enterBody.mapSpan σ := rfl

theorem enterBlock_mapSpan : (scope.mapSpan σ).enterBlock = scope.enterBlock.mapSpan σ := rfl

theorem get?_mapSpan (name : String) :
    (scope.mapSpan σ).get? name = (scope.get? name).map (Binding.mapSpan σ) := by
  unfold get? mapSpan
  rw [List.find?_map]
  rfl

theorem lookup_mapSpan (name : String) (span : Span) :
    (scope.mapSpan σ).lookup name (σ span) =
      (scope.lookup name span).mapError (SemanticError.mapSpan σ) := by
  unfold lookup
  rw [get?_mapSpan]
  cases scope.get? name with
  | none => rfl
  | some b => rfl

theorem blocks_mapSpan (name : String) : (scope.mapSpan σ).blocks name = scope.blocks name := by
  unfold blocks
  rw [get?_mapSpan]
  cases scope.get? name with
  | none => rfl
  | some b => rfl

theorem insert_mapSpan (b : Binding) :
    (scope.mapSpan σ).insert (b.mapSpan σ) = (scope.insert b).mapSpan σ := by
  unfold insert mapSpan
  rw [List.map_cons, List.filter_map]
  rfl

end Scope

/-! ### Rules -/

def Operand.mapSpan (σ : Span → Span) (o : Operand) : Operand := ⟨σ o.span, o.run.mapSpan σ⟩

namespace Typing

open Run

variable (σ : Span → Span)

theorem agree_mapSpan (reference : Ty) (operands : List Operand) :
    agree reference (operands.map (Operand.mapSpan σ)) = (agree reference operands).mapSpan σ := by
  induction operands with
  | nil => rfl
  | cons o rest ih =>
    simp only [List.map_cons, agree, mapSpan_bind, mapSpan_require, ih]
    rfl

theorem allBool_mapSpan (operands : List Operand) :
    allBool (operands.map (Operand.mapSpan σ)) = (allBool operands).mapSpan σ := by
  induction operands with
  | nil => rfl
  | cons o rest ih =>
    simp only [List.map_cons, allBool, mapSpan_bind, mapSpan_require, ih]
    rfl

theorem list_mapSpan (operands : List Operand) :
    list (operands.map (Operand.mapSpan σ)) = (list operands).mapSpan σ := by
  cases operands with
  | nil => rfl
  | cons first rest =>
    simp only [List.map_cons, list, mapSpan_bind, agree_mapSpan]
    rfl

theorem unary_mapSpan (op : UnaryOp) (o : Operand) :
    unary op (o.mapSpan σ) = (unary op o).mapSpan σ := by
  cases op with
  | neg =>
    simp only [unary, negation, mapSpan_bind, mapSpan_require]
    rfl
  | not =>
    simp only [unary, complement, mapSpan_bind, mapSpan_require]
    rfl

theorem arithmetic_mapSpan (first : Operand) (rest : List Operand) :
    arithmetic (first.mapSpan σ) (rest.map (Operand.mapSpan σ)) =
      (arithmetic first rest).mapSpan σ := by
  simp only [arithmetic, mapSpan_bind, mapSpan_require, agree_mapSpan, List.length_map]
  rfl

theorem logical_mapSpan (first : Operand) (rest : List Operand) :
    logical (first.mapSpan σ) (rest.map (Operand.mapSpan σ)) = (logical first rest).mapSpan σ := by
  simp only [logical, ← List.map_cons, mapSpan_bind, allBool_mapSpan, List.length_map]
  rfl

/-- A comparison reports the smallest span around its sides, the one place that a rule makes. -/
theorem comparison_mapSpan (hσ : Relocates σ) (op : CompareOp) (left right : Operand) :
    comparison op (left.mapSpan σ) (right.mapSpan σ) = (comparison op left right).mapSpan σ := by
  have hmerge : (σ left.span).merge (σ right.span) = σ (left.span.merge right.span) :=
    (hσ left.span right.span).symm
  simp only [comparison, Operand.mapSpan, hmerge, mapSpan_bind, mapSpan_require]
  rfl

theorem condition_mapSpan (o : Operand) : condition (o.mapSpan σ) = (condition o).mapSpan σ := by
  simp only [condition, mapSpan_bind, mapSpan_require]
  rfl

theorem ternary_mapSpan (test thenArm elseArm : Operand) (span : Span) :
    ternary (test.mapSpan σ) (thenArm.mapSpan σ) (elseArm.mapSpan σ) (σ span) =
      (ternary test thenArm elseArm span).mapSpan σ := by
  simp only [ternary, mapSpan_bind, mapSpan_require, condition_mapSpan]
  rfl

theorem announce_mapSpan (e : Expr) (run : Run Ty) :
    announce (e.mapSpan σ) (run.mapSpan σ) = (announce e run).mapSpan σ := by
  simp only [announce, mapSpan_bind, mapSpan_emit, mapSpan_pure]
  rfl

end Typing

/-! ### Expressions -/

namespace Expr

open Typing Run

variable {σ : Span → Span}

@[simp] theorem span_mapSpan (e : Expr) : (e.mapSpan σ).span = σ e.span := by
  cases e with
  | compare left rhs span =>
    cases rhs with
    | none => rw [mapSpan]; rfl
    | some link => rw [mapSpan]; rfl
  | _ => rw [mapSpan]; rfl

/-- The relocated operands of a node, when each of them is checked alike. -/
theorem operands_mapSpan {β : Type} {scope : Scope} {items : List β} {part : β → Expr}
    (h : ∀ x ∈ items, ((part x).mapSpan σ).check (scope.mapSpan σ) =
      ((part x).check scope).mapSpan σ) :
    (items.map fun x => (⟨((part x).mapSpan σ).span,
        ((part x).mapSpan σ).check (scope.mapSpan σ)⟩ : Operand)) =
      (items.map fun x => (⟨(part x).span, (part x).check scope⟩ : Operand)).map
        (Operand.mapSpan σ) := by
  rw [List.map_map]
  refine List.map_congr_left fun x hx => ?_
  rw [h x hx, span_mapSpan]
  rfl

/-- The check of a relocated expression is the relocated check of the expression. -/
theorem check_mapSpan (hσ : Relocates σ) (scope : Scope) (e : Expr) :
    (e.mapSpan σ).check (scope.mapSpan σ) = (e.check scope).mapSpan σ := by
  induction e with
  | int digits span => rw [check, ← announce_mapSpan, mapSpan, check]; rfl
  | real value span => rw [check, ← announce_mapSpan, mapSpan, check]; rfl
  | bool value span => rw [check, ← announce_mapSpan, mapSpan, check]; rfl
  | ident name span =>
    rw [check, ← announce_mapSpan, mapSpan, check, Scope.lookup_mapSpan, mapSpan_ofExcept]
  | list items span ih =>
    rw [check, ← announce_mapSpan, mapSpan, check, List.map_map, ← list_mapSpan,
      ← operands_mapSpan ih]
    rfl
  | unary op operand span ih =>
    rw [check, ← announce_mapSpan, mapSpan, check, ih, span_mapSpan, ← unary_mapSpan]
    rfl
  | additive first rest span ih ihs =>
    rw [check, ← announce_mapSpan, mapSpan, check, ih, span_mapSpan, List.map_map,
      ← arithmetic_mapSpan, ← operands_mapSpan ihs]
    rfl
  | multiplicative first rest span ih ihs =>
    rw [check, ← announce_mapSpan, mapSpan, check, ih, span_mapSpan, List.map_map,
      ← arithmetic_mapSpan, ← operands_mapSpan ihs]
    rfl
  | logical first rest span ih ihs =>
    rw [check, ← announce_mapSpan, mapSpan, check, ih, span_mapSpan, List.map_map,
      ← logical_mapSpan, ← operands_mapSpan ihs]
    rfl
  | single left span ih => rw [check, ← announce_mapSpan, mapSpan, check, ih]
  | compare left op right span ihl ihr =>
    rw [check, ← announce_mapSpan, mapSpan, check, ihl, ihr, span_mapSpan, span_mapSpan,
      ← comparison_mapSpan σ hσ]
    rfl
  | ternary test thenArm elseArm span ihc iht ihe =>
    rw [check, ← announce_mapSpan, mapSpan, check, ihc, iht, ihe, span_mapSpan, span_mapSpan,
      span_mapSpan, ← ternary_mapSpan]
    rfl

theorem checkCondition_mapSpan (hσ : Relocates σ) (scope : Scope) (e : Expr) :
    (e.mapSpan σ).checkCondition (scope.mapSpan σ) = (e.checkCondition scope).mapSpan σ := by
  unfold checkCondition operand
  rw [check_mapSpan hσ, span_mapSpan, ← condition_mapSpan]
  rfl

end Expr

/-! ### Statements -/

open Run

variable {σ : Span → Span}

/-- Relocates what checking a statement yields, and the scope it leaves behind. -/
def relocate (σ : Span → Span) (result : Run Unit × Scope) : Run Unit × Scope :=
  (result.1.mapSpan σ, result.2.mapSpan σ)

theorem Block.stmts_mapSpan (b : Block Stmt) :
    (b.mapSpan σ).stmts = b.stmts.map (Stmt.mapSpan σ) := rfl

theorem Declaration.extend_mapSpan (scope : Scope) (decl : Declaration) :
    (decl.mapSpan σ).extend (scope.mapSpan σ) = (decl.extend scope).mapSpan σ := by
  unfold extend
  rw [← Scope.insert_mapSpan]
  rfl

theorem Declaration.check_mapSpan (hσ : Relocates σ) (scope : Scope) (decl : Declaration) :
    (decl.mapSpan σ).check (scope.mapSpan σ) = relocate σ (decl.check scope) := by
  have hname : (scope.mapSpan σ).blocks (decl.mapSpan σ).name = scope.blocks decl.name :=
    scope.blocks_mapSpan σ decl.name
  cases h : scope.blocks decl.name with
  | true =>
    rw [check_of_blocks h, check_of_blocks (hname.trans h)]
    rfl
  | false =>
    rw [check_of_not_blocks h, check_of_not_blocks (hname.trans h), extend_mapSpan]
    cases hinit : decl.init with
    | none =>
      simp only [relocate, mapSpan, hinit, Option.map_none, mapSpan_bind, mapSpan_pure]
      rfl
    | some e =>
      simp only [relocate, mapSpan, hinit, Option.map_some, mapSpan_bind, mapSpan_require,
        ← Expr.check_mapSpan hσ]
      rfl

namespace Stmt

theorem checkAssign_mapSpan (hσ : Relocates σ) (scope : Scope) (target : String)
    (targetSpan : Span) (value : Expr) (span : Span) :
    checkAssign (scope.mapSpan σ) target (σ targetSpan) (value.mapSpan σ) (σ span) =
      (checkAssign scope target targetSpan value span).mapSpan σ := by
  simp only [checkAssign, mapSpan_bind, mapSpan_ofExcept, mapSpan_require,
    Scope.lookup_mapSpan, Expr.check_mapSpan hσ]
  rfl

theorem enclose_mapSpan (inner : Scope) (body : Run Unit × Scope) :
    enclose (inner.mapSpan σ) (relocate σ body) = relocate σ (enclose inner body) := by
  simp only [enclose, relocate, mapSpan_bind, mapSpan_emit, Scope.depth_mapSpan,
    Scope.size_mapSpan]
  rfl

/-- A statement is checked alike wherever it stands. -/
def ChecksAlike (σ : Span → Span) (s : Stmt) : Prop :=
  ∀ scope : Scope, check (scope.mapSpan σ) (s.mapSpan σ) = relocate σ (check scope s)

theorem checkAll_mapSpan_of_forall {stmts : List Stmt} (h : ∀ s ∈ stmts, s.ChecksAlike σ)
    (scope : Scope) : checkAll (scope.mapSpan σ) (stmts.map (mapSpan σ)) =
      relocate σ (checkAll scope stmts) := by
  induction stmts generalizing scope with
  | nil => rfl
  | cons s rest ih =>
    obtain ⟨hs, hrest⟩ := List.forall_mem_cons.1 h
    simp only [List.map_cons, checkAll, hs scope]
    cases hok : (check scope s).1.isOk with
    | false => simp only [relocate, isOk_mapSpan, hok, Bool.false_eq_true, if_false]
    | true =>
      simp only [relocate, isOk_mapSpan, hok, if_true, ih hrest]
      exact congrArg (·, _) (mapSpan_bind σ _ _).symm

/-- The check of a relocated statement is the relocated check of the statement. -/
theorem check_mapSpan (hσ : Relocates σ) (s : Stmt) : s.ChecksAlike σ := by
  induction s with
  | declare decl span =>
    intro scope
    rw [mapSpan, check_declare, check_declare, Declaration.check_mapSpan hσ]
  | assign target targetSpan value span =>
    intro scope
    rw [mapSpan, check_assign, check_assign, checkAssign_mapSpan hσ]
    rfl
  | ifThen test body span ih =>
    intro scope
    rw [mapSpan_ifElse, Option.map_none, check_ifThen, check_ifThen, Scope.enterBody_mapSpan,
      Block.stmts_mapSpan, checkAll_mapSpan_of_forall ih, enclose_mapSpan]
    simp only [relocate, mapSpan_bind, mapSpan_count, Expr.checkCondition_mapSpan hσ]
  | ifElse test body other span ih ihOther =>
    intro scope
    rw [mapSpan_ifElse, Option.map_some, check_ifElse, check_ifElse, Scope.enterBody_mapSpan,
      Block.stmts_mapSpan, Block.stmts_mapSpan, checkAll_mapSpan_of_forall ih,
      checkAll_mapSpan_of_forall ihOther, enclose_mapSpan, enclose_mapSpan]
    simp only [relocate, mapSpan_bind, mapSpan_count, Expr.checkCondition_mapSpan hσ]
  | whileDo test body span ih =>
    intro scope
    rw [mapSpan_whileDo, check_whileDo, check_whileDo, Scope.enterBody_mapSpan,
      Block.stmts_mapSpan, checkAll_mapSpan_of_forall ih, enclose_mapSpan]
    simp only [relocate, mapSpan_bind, mapSpan_count, Expr.checkCondition_mapSpan hσ]
  | doWhile body test span ih =>
    intro scope
    rw [mapSpan_doWhile, check_doWhile, check_doWhile, Scope.enterBody_mapSpan,
      Block.stmts_mapSpan, checkAll_mapSpan_of_forall ih, enclose_mapSpan]
    simp only [relocate, mapSpan_bind, mapSpan_count, Expr.checkCondition_mapSpan hσ]
  | block body span ih =>
    intro scope
    rw [mapSpan_block, check_block, check_block, Scope.enterBlock_mapSpan, Block.stmts_mapSpan,
      checkAll_mapSpan_of_forall ih, enclose_mapSpan]
    rfl
  | expr value span =>
    intro scope
    rw [mapSpan, check_expr, check_expr, Expr.check_mapSpan hσ]
    simp only [relocate, mapSpan_bind, mapSpan_pure]

theorem checkAll_mapSpan (hσ : Relocates σ) (scope : Scope) (stmts : List Stmt) :
    checkAll (scope.mapSpan σ) (stmts.map (mapSpan σ)) = relocate σ (checkAll scope stmts) :=
  checkAll_mapSpan_of_forall (fun s _ => check_mapSpan hσ s) scope

end Stmt

/-! ### Programs -/

/-- A relocated program has the metrics of the program, or the relocated first violation in it. -/
theorem Program.analyze_mapSpan (hσ : Relocates σ) (p : Program) :
    (p.mapSpan σ).analyze = p.analyze.mapError (SemanticError.mapSpan σ) := by
  have hall : Stmt.checkAll .empty (p.mapSpan σ).stmts =
      relocate σ (Stmt.checkAll .empty p.stmts) := Stmt.checkAll_mapSpan hσ .empty p.stmts
  have hrun : (p.mapSpan σ).check = p.check.mapSpan σ := by
    unfold check
    rw [hall]
    exact (mapSpan_bind σ (Stmt.checkAll .empty p.stmts).1 fun _ => do
      emit (.completed (Stmt.checkAll .empty p.stmts).1.tally)
      return (Stmt.checkAll .empty p.stmts).1.tally).symm
  unfold analyze
  rw [hrun]
  rfl

end StaticCheck
