import Mathlib.Data.List.Forall2
import Mathlib.Order.Defs.PartialOrder
import StaticCheck.Proofs.Nodes
import StaticCheck.Proofs.Statements

/-! # Plans

The plan of a tree is what a check of it does if nothing goes wrong: what it counts, and the steps
that it records, in order.  It is read off the tree alone, whatever the scope is and whatever types
are found in it.

A run follows a plan if it does a first part of it, and the whole of it if it succeeds
(`Run.Follows`).  Runs in sequence follow plans in sequence, so a check of an expression follows the
plan of the expression (`Expr.follows_check`) and a check of statements that of the statements
(`Stmt.follows_checkAll`), wherever they fail. -/

namespace StaticCheck

/-! ### Metrics in order -/

namespace Metrics

/-- One tally is at most another one if each of its counters is. -/
instance : PartialOrder Metrics where
  le a b := a.declarations ≤ b.declarations ∧ a.loops ≤ b.loops ∧
    a.conditionals ≤ b.conditionals ∧ a.operators ≤ b.operators
  le_refl a := ⟨Nat.le_refl _, Nat.le_refl _, Nat.le_refl _, Nat.le_refl _⟩
  le_trans a b c hab hbc := by
    obtain ⟨hd, hl, hc, ho⟩ := hab
    obtain ⟨hd', hl', hc', ho'⟩ := hbc
    exact ⟨Nat.le_trans hd hd', Nat.le_trans hl hl', Nat.le_trans hc hc', Nat.le_trans ho ho'⟩
  le_antisymm a b hab hba := by
    obtain ⟨hd, hl, hc, ho⟩ := hab
    obtain ⟨hd', hl', hc', ho'⟩ := hba
    cases a
    cases b
    rw [mk.injEq]
    exact ⟨Nat.le_antisymm hd hd', Nat.le_antisymm hl hl', Nat.le_antisymm hc hc',
      Nat.le_antisymm ho ho'⟩

theorem le_iff {a b : Metrics} : a ≤ b ↔ a.declarations ≤ b.declarations ∧ a.loops ≤ b.loops ∧
    a.conditionals ≤ b.conditionals ∧ a.operators ≤ b.operators := Iff.rfl

theorem le_add_right (a b : Metrics) : a ≤ a + b := by
  rw [le_iff, add_def]
  exact ⟨Nat.le_add_right _ _, Nat.le_add_right _ _, Nat.le_add_right _ _, Nat.le_add_right _ _⟩

theorem add_le_add_left {a b : Metrics} (h : a ≤ b) (c : Metrics) : c + a ≤ c + b := by
  obtain ⟨hd, hl, hc, ho⟩ := le_iff.1 h
  rw [le_iff, add_def, add_def]
  exact ⟨Nat.add_le_add_left hd _, Nat.add_le_add_left hl _, Nat.add_le_add_left hc _,
    Nat.add_le_add_left ho _⟩

end Metrics

/-! ### Steps -/

/-- What an event is about, without the types and the sizes of scopes that are only found by
checking. -/
inductive Step where
  | typed (e : Expr)
  | declared (name : String)
  | entered (depth : Nat)
  | left (depth : Nat)
  | completed

namespace Event

def step : Event → Step
  | typed e _ => .typed e
  | declared name _ _ => .declared name
  | entered depth _ => .entered depth
  | left depth => .left depth
  | completed _ => .completed

def isDeclared : Event → Bool
  | declared _ _ _ => true
  | _ => false

end Event

/-! ### Plans -/

/-- What a check does if nothing goes wrong. -/
structure Plan where
  metrics : Metrics
  steps : List Step

namespace Plan

instance : Zero Plan := ⟨⟨0, []⟩⟩

instance : Add Plan := ⟨fun a b => ⟨a.metrics + b.metrics, a.steps ++ b.steps⟩⟩

@[simp] theorem metrics_add (a b : Plan) : (a + b).metrics = a.metrics + b.metrics := rfl

@[simp] theorem steps_add (a b : Plan) : (a + b).steps = a.steps ++ b.steps := rfl

protected theorem add_assoc (a b c : Plan) : a + b + c = a + (b + c) := by
  change (⟨a.metrics + b.metrics + c.metrics, a.steps ++ b.steps ++ c.steps⟩ : Plan) = _
  rw [Metrics.add_assoc, List.append_assoc]
  rfl

protected theorem zero_add (a : Plan) : 0 + a = a := by
  change (⟨0 + a.metrics, [] ++ a.steps⟩ : Plan) = a
  rw [Metrics.zero_add, List.nil_append]

protected theorem add_zero (a : Plan) : a + 0 = a := by
  change (⟨a.metrics + 0, a.steps ++ []⟩ : Plan) = a
  rw [Metrics.add_zero, List.append_nil]

def counting (m : Metrics) : Plan := ⟨m, []⟩

def single (step : Step) : Plan := ⟨0, [step]⟩

/-- What is only counted may be counted earlier. -/
theorem add_counting (a : Plan) (m : Metrics) : a + counting m = counting m + a := by
  change (⟨a.metrics + m, a.steps ++ []⟩ : Plan) = ⟨m + a.metrics, [] ++ a.steps⟩
  rw [Metrics.add_comm, List.append_nil, List.nil_append]

/-- A block: it is entered, then comes what stands in it, then it is left. -/
def block (depth : Nat) (body : Plan) : Plan :=
  single (.entered depth) + (body + single (.left depth))

end Plan

/-! ### Following a plan -/

namespace Run

variable {α β : Type} {a b : Plan}

/-- The run does a first part of the plan, and the whole of it if it succeeds.  It counts a
declaration exactly where it records one. -/
structure Follows (plan : Plan) (run : Run α) : Prop where
  tally_le : run.tally ≤ plan.metrics
  steps : run.events.map Event.step <+: plan.steps
  declared : run.events.countP Event.isDeclared = run.tally.declarations
  whole : ∀ x, run.outcome = .ok x →
    run.tally = plan.metrics ∧ run.events.map Event.step = plan.steps

theorem follows_pure (x : α) : (pure x : Run α).Follows 0 :=
  ⟨le_refl _, List.prefix_refl _, rfl, fun _ _ => ⟨rfl, rfl⟩⟩

theorem follows_fail (e : SemanticError) (plan : Plan) : (fail e : Run α).Follows plan where
  tally_le := ⟨Nat.zero_le _, Nat.zero_le _, Nat.zero_le _, Nat.zero_le _⟩
  steps := List.nil_prefix
  declared := rfl
  whole := by
    intro x hx
    cases hx

theorem follows_bind {run : Run α} {next : α → Run β} (h : run.Follows a)
    (hnext : ∀ x, (next x).Follows b) : (run >>= next).Follows (a + b) := by
  obtain ⟨outcome, tally, events⟩ := run
  cases outcome with
  | error e =>
    -- what was done before the failure is a first part of the first plan alone
    exact ⟨h.tally_le.trans (Metrics.le_add_right _ _),
      h.steps.trans (List.prefix_append _ _), h.declared, fun x hx => by cases hx⟩
  | ok x =>
    obtain ⟨htally, hsteps⟩ := h.whole x rfl
    change tally = a.metrics at htally
    change events.map Event.step = a.steps at hsteps
    have hthen := hnext x
    change Follows (a + b) ⟨(next x).outcome, tally + (next x).tally, events ++ (next x).events⟩
    refine ⟨?_, ?_, ?_, fun y hy => ?_⟩
    · change tally + (next x).tally ≤ a.metrics + b.metrics
      rw [htally]
      exact Metrics.add_le_add_left hthen.tally_le _
    · change (events ++ (next x).events).map Event.step <+: a.steps ++ b.steps
      rw [List.map_append, hsteps, List.prefix_append_right_inj]
      exact hthen.steps
    · have hfirst : events.countP Event.isDeclared = tally.declarations := h.declared
      change (events ++ (next x).events).countP _ = tally.declarations + (next x).tally.declarations
      rw [List.countP_append, hfirst, hthen.declared]
    · obtain ⟨htally', hsteps'⟩ := hthen.whole y hy
      change tally + (next x).tally = a.metrics + b.metrics ∧
        (events ++ (next x).events).map Event.step = a.steps ++ b.steps
      rw [htally, htally', List.map_append, hsteps, hsteps']
      exact ⟨rfl, rfl⟩

/-! ### Single steps -/

theorem follows_require (condition : Bool) (e : SemanticError) :
    (require condition e).Follows 0 := by
  cases condition with
  | false => exact follows_fail e 0
  | true => exact follows_pure ()

theorem follows_ofExcept (result : Except SemanticError α) : (ofExcept result).Follows 0 := by
  cases result with
  | error e => exact follows_fail e 0
  | ok x => exact follows_pure x

/-- A run that is followed by steps which neither count nor record anything. -/
theorem follows_then {run : Run α} {next : α → Run β} (h : run.Follows a)
    (hnext : ∀ x, (next x).Follows 0) : (run >>= next).Follows a := by
  have hboth := follows_bind h hnext
  rwa [Plan.add_zero] at hboth

theorem follows_require_bind {condition : Bool} {e : SemanticError} {next : Unit → Run α}
    (h : (next ()).Follows a) : (require condition e >>= next).Follows a := by
  have hboth := follows_bind (follows_require condition e) fun _ => h
  rwa [Plan.zero_add] at hboth

theorem follows_ofExcept_bind {result : Except SemanticError α} {next : α → Run β}
    (h : ∀ x, (next x).Follows a) : (ofExcept result >>= next).Follows a := by
  have hboth := follows_bind (follows_ofExcept result) h
  rwa [Plan.zero_add] at hboth

/-- Declarations are counted together with their records only. -/
theorem follows_count {m : Metrics} (h : m.declarations = 0) :
    (count m).Follows (.counting m) :=
  ⟨le_refl _, List.prefix_refl _, h.symm, fun _ _ => ⟨rfl, rfl⟩⟩

theorem follows_count_bind {m : Metrics} {next : Unit → Run α} (hm : m.declarations = 0)
    (h : (next ()).Follows a) : (count m >>= next).Follows (.counting m + a) :=
  follows_bind (follows_count hm) fun _ => h

theorem follows_emit (event : Event) (h : event.isDeclared = false) :
    (emit event).Follows (.single event.step) where
  tally_le := le_refl _
  steps := List.prefix_refl _
  declared := by
    change [event].countP Event.isDeclared = 0
    rw [List.countP_singleton, h]
    rfl
  whole := fun _ _ => ⟨rfl, rfl⟩

end Run

/-! ### Rules -/

namespace Typing

open Run

/-- The operands follow these plans, one each. -/
def FollowAll (operands : List Operand) (plans : List Plan) : Prop :=
  List.Forall₂ (fun o plan => o.run.Follows plan) operands plans

variable {plans : List Plan}

theorem follows_announce (e : Expr) {run : Run Ty} {plan : Plan} (h : run.Follows plan) :
    (announce e run).Follows (plan + .single (.typed e)) := by
  refine follows_bind h fun ty => ?_
  exact follows_then (follows_emit (.typed e ty) rfl) fun _ => follows_pure ty

theorem follows_agree (reference : Ty) {operands : List Operand} (h : FollowAll operands plans) :
    (agree reference operands).Follows plans.sum := by
  induction h with
  | nil => exact follows_pure ()
  | cons ho _ ih =>
    rw [List.sum_cons]
    exact follows_bind ho fun ty => follows_require_bind ih

theorem follows_allBool {operands : List Operand} (h : FollowAll operands plans) :
    (allBool operands).Follows plans.sum := by
  induction h with
  | nil => exact follows_pure ()
  | cons ho _ ih =>
    rw [List.sum_cons]
    exact follows_bind ho fun ty => follows_require_bind ih

theorem follows_list {operands : List Operand} (h : FollowAll operands plans) :
    (list operands).Follows plans.sum := by
  cases h with
  | nil => exact follows_pure _
  | cons ho hrest =>
    rw [List.sum_cons]
    refine follows_bind ho fun ty => ?_
    exact follows_then (follows_agree ty hrest) fun _ => follows_pure _

theorem follows_unary (op : UnaryOp) {o : Operand} {plan : Plan} (h : o.run.Follows plan) :
    (unary op o).Follows (.counting (.ofOperators 1) + plan) := by
  cases op with
  | neg =>
    refine follows_count_bind rfl (follows_then h fun ty => ?_)
    exact follows_require_bind (follows_pure ty)
  | not =>
    refine follows_count_bind rfl (follows_then h fun ty => ?_)
    exact follows_require_bind (follows_pure _)

theorem follows_arithmetic {first : Operand} {rest : List Operand}
    (h : FollowAll (first :: rest) plans) :
    (arithmetic first rest).Follows (.counting (.ofOperators rest.length) + plans.sum) := by
  cases h with
  | cons hfirst hrest =>
    rw [List.sum_cons]
    refine follows_count_bind rfl (follows_bind hfirst fun ty => follows_require_bind ?_)
    exact follows_then (follows_agree ty hrest) fun _ => follows_pure ty

theorem follows_logical {first : Operand} {rest : List Operand}
    (h : FollowAll (first :: rest) plans) :
    (logical first rest).Follows (.counting (.ofOperators rest.length) + plans.sum) := by
  refine follows_count_bind rfl ?_
  exact follows_then (follows_allBool h) fun _ => follows_pure _

/-- The operator of a comparison counts behind both sides. -/
theorem follows_comparison (op : CompareOp) {left right : Operand} {plan plan' : Plan}
    (hl : left.run.Follows plan) (hr : right.run.Follows plan') :
    (comparison op left right).Follows (.counting (.ofOperators 1) + (plan + plan')) := by
  rw [← Plan.add_counting, Plan.add_assoc]
  refine follows_bind hl fun leftTy => follows_bind hr fun rightTy => ?_
  refine follows_require_bind (follows_then (follows_count rfl) fun _ => ?_)
  exact follows_require_bind (follows_pure _)

theorem follows_condition {o : Operand} {plan : Plan} (h : o.run.Follows plan) :
    (condition o).Follows plan :=
  follows_then h fun _ => follows_require _ _

theorem follows_ternary {test thenArm elseArm : Operand} (span : Span) {plan plan' plan'' : Plan}
    (htest : test.run.Follows plan) (hthen : thenArm.run.Follows plan')
    (helse : elseArm.run.Follows plan'') :
    (ternary test thenArm elseArm span).Follows
      (.counting .conditional + (plan + (plan' + plan''))) := by
  refine follows_count_bind rfl (follows_bind (follows_condition htest) fun _ => ?_)
  refine follows_bind hthen fun thenTy => follows_then helse fun elseTy => ?_
  exact follows_require_bind (follows_pure _)

end Typing

/-! ### Expressions -/

namespace Expr

/-- All nodes of an expression count, and all are recorded, each behind its operands. -/
def plan (e : Expr) : Plan := ⟨e.metrics, e.nodes.map .typed⟩

theorem plan_eq (e : Expr) :
    e.plan = .counting e.ownTally + (e.children.map plan).sum + .single (.typed e) := by
  have hsum : ∀ es : List Expr, (es.map plan).sum =
      ⟨(es.map metrics).sum, (es.flatMap nodes).map .typed⟩ := by
    intro es
    induction es with
    | nil => rfl
    | cons c es ih =>
      rw [List.map_cons, List.sum_cons, ih, List.map_cons, List.sum_cons, List.flatMap_cons,
        List.map_append]
      rfl
  have hmetrics : e.metrics = e.ownTally + (e.children.map metrics).sum + 0 := by
    rw [metrics_eq, Metrics.add_zero]
  have hsteps : e.nodes.map Step.typed =
      [] ++ (e.children.flatMap nodes).map .typed ++ [.typed e] := by
    rw [nodes_eq, List.map_append, List.map_singleton, List.nil_append]
  rw [hsum, plan, hmetrics, hsteps]
  rfl

variable {scope : Scope}

theorem followAll_items {items : List Expr} (h : ∀ e ∈ items, (e.check scope).Follows e.plan) :
    Typing.FollowAll (items.map fun e => ⟨e.span, e.check scope⟩) (items.map plan) := by
  rw [Typing.FollowAll, List.forall₂_map_left_iff, List.forall₂_map_right_iff, List.forall₂_same]
  exact h

theorem followAll_chain {ω : Type} {first : Expr} {rest : List (Link ω Expr)}
    (hfirst : (first.check scope).Follows first.plan)
    (hrest : ∀ link ∈ rest, (link.operand.check scope).Follows link.operand.plan) :
    Typing.FollowAll (⟨first.span, first.check scope⟩ ::
        rest.map fun link => ⟨link.operand.span, link.operand.check scope⟩)
      ((first :: rest.map Link.operand).map plan) := by
  rw [List.map_cons, List.map_map]
  refine .cons hfirst ?_
  rw [List.forall₂_map_left_iff, List.forall₂_map_right_iff, List.forall₂_same]
  exact hrest

/-- A check of an expression follows its plan. -/
theorem follows_check (scope : Scope) (e : Expr) : (e.check scope).Follows e.plan := by
  induction e with
  | int digits span =>
    rw [check, plan_eq]
    exact Typing.follows_announce _ (Run.follows_pure _)
  | real value span =>
    rw [check, plan_eq]
    exact Typing.follows_announce _ (Run.follows_pure _)
  | bool value span =>
    rw [check, plan_eq]
    exact Typing.follows_announce _ (Run.follows_pure _)
  | ident name span =>
    rw [check, plan_eq]
    exact Typing.follows_announce _ (Run.follows_ofExcept _)
  | list items span ih =>
    rw [check, plan_eq]
    have hitems := Typing.follows_list (followAll_items ih)
    rw [← Plan.zero_add (List.sum _)] at hitems
    exact Typing.follows_announce _ hitems
  | unary op operand span ih =>
    rw [check, plan_eq]
    simp only [children, List.map_cons, List.map_nil, List.sum_cons, List.sum_nil, Plan.add_zero]
    exact Typing.follows_announce _ (Typing.follows_unary op ih)
  | additive first rest span ih ihs =>
    rw [check, plan_eq]
    have hchain := Typing.follows_arithmetic (followAll_chain ih ihs)
    rw [List.length_map] at hchain
    exact Typing.follows_announce _ hchain
  | multiplicative first rest span ih ihs =>
    rw [check, plan_eq]
    have hchain := Typing.follows_arithmetic (followAll_chain ih ihs)
    rw [List.length_map] at hchain
    exact Typing.follows_announce _ hchain
  | logical first rest span ih ihs =>
    rw [check, plan_eq]
    have hchain := Typing.follows_logical (followAll_chain ih ihs)
    rw [List.length_map] at hchain
    exact Typing.follows_announce _ hchain
  | single left span ih =>
    rw [check, plan_eq]
    simp only [children, Option.map_none, Option.toList_none, List.map_cons, List.map_nil,
      List.sum_cons, List.sum_nil, Plan.add_zero]
    rw [← Plan.zero_add left.plan] at ih
    exact Typing.follows_announce _ ih
  | compare left op right span ihl ihr =>
    rw [check, plan_eq]
    simp only [children, Option.map_some, Option.toList_some, List.map_cons, List.map_nil,
      List.sum_cons, List.sum_nil, Plan.add_zero]
    exact Typing.follows_announce _ (Typing.follows_comparison op ihl ihr)
  | ternary test thenArm elseArm span ihc iht ihe =>
    rw [check, plan_eq]
    simp only [children, List.map_cons, List.map_nil, List.sum_cons, List.sum_nil, Plan.add_zero]
    exact Typing.follows_announce _ (Typing.follows_ternary span ihc iht ihe)

theorem follows_checkCondition (scope : Scope) (e : Expr) :
    (e.checkCondition scope).Follows e.plan :=
  Typing.follows_condition (e.follows_check scope)

end Expr

/-! ### Statements -/

/-- A declaration is counted and recorded before its initial value is looked at. -/
def Declaration.plan (decl : Declaration) : Plan :=
  ⟨.declaration, [.declared decl.name]⟩ + decl.init.elim 0 Expr.plan

theorem Declaration.follows_check (scope : Scope) (decl : Declaration) :
    (decl.check scope).1.Follows decl.plan := by
  cases hblocks : scope.blocks decl.name with
  | true =>
    rw [check_of_blocks hblocks]
    exact Run.follows_fail _ _
  | false =>
    rw [check_of_not_blocks hblocks, ← bind_assoc]
    refine Run.follows_bind ?_ fun _ => ?_
    · exact ⟨le_refl _, List.prefix_refl _, rfl, fun _ _ => ⟨rfl, rfl⟩⟩
    · cases decl.init with
      | none => exact Run.follows_pure ()
      | some init =>
        exact Run.follows_then (init.follows_check _) fun _ => Run.follows_require _ _

namespace Stmt

mutual

/-- The plan of a statement with so many blocks around it. -/
def plan (depth : Nat) : Stmt → Plan
  | declare decl _ => decl.plan
  | assign _ _ value _ => value.plan
  | ifElse test ⟨stmts, _⟩ none _ =>
    .counting .conditional + (test.plan + .block (depth + 1) (planAll (depth + 1) stmts))
  | ifElse test ⟨stmts, _⟩ (some ⟨others, _⟩) _ =>
    .counting .conditional + (test.plan + (.block (depth + 1) (planAll (depth + 1) stmts) +
      .block (depth + 1) (planAll (depth + 1) others)))
  | whileDo test ⟨stmts, _⟩ _ =>
    .counting .loop + (test.plan + .block (depth + 1) (planAll (depth + 1) stmts))
  | doWhile ⟨stmts, _⟩ test _ =>
    .counting .loop + (.block (depth + 1) (planAll (depth + 1) stmts) + test.plan)
  | block ⟨stmts, _⟩ _ => .block (depth + 1) (planAll (depth + 1) stmts)
  | expr value _ => value.plan
termination_by structural s => s

def planAll (depth : Nat) : List Stmt → Plan
  | [] => 0
  | s :: rest => s.plan depth + planAll depth rest
termination_by structural rest => rest

end

/-- A check of the statement follows its plan, in every scope of the right depth. -/
def FollowsPlan (s : Stmt) : Prop :=
  ∀ scope : Scope, (s.check scope).1.Follows (s.plan scope.depth)

/-- No statement changes the depth of the scope. -/
theorem depth_check (scope : Scope) (s : Stmt) : (s.check scope).2.depth = scope.depth := by
  cases s with
  | declare decl span =>
    rw [check_declare]
    cases hblocks : scope.blocks decl.name with
    | true => rw [Declaration.check_of_blocks hblocks]
    | false =>
      rw [Declaration.check_of_not_blocks hblocks]
      rfl
  | ifElse test body other span => cases other <;> rfl
  | assign | whileDo | doWhile | block | expr => rfl

theorem follows_checkAll_of_forall {stmts : List Stmt} (hstmts : ∀ s ∈ stmts, s.FollowsPlan)
    (scope : Scope) : (checkAll scope stmts).1.Follows (planAll scope.depth stmts) := by
  induction stmts generalizing scope with
  | nil => exact Run.follows_pure ()
  | cons s rest ih =>
    obtain ⟨hs, hrest⟩ := List.forall_mem_cons.1 hstmts
    rw [checkAll_cons_run, planAll]
    refine Run.follows_bind (hs scope) fun _ => ?_
    rw [← depth_check scope s]
    exact ih hrest _

theorem follows_block {stmts : List Stmt} (hstmts : ∀ s ∈ stmts, s.FollowsPlan) (inner : Scope) :
    (enclose inner (checkAll inner stmts)).1.Follows
      (.block inner.depth (planAll inner.depth stmts)) := by
  refine Run.follows_bind (Run.follows_emit (.entered inner.depth inner.size) rfl) fun _ => ?_
  refine Run.follows_bind (follows_checkAll_of_forall hstmts inner) fun _ => ?_
  exact Run.follows_emit (.left inner.depth) rfl

theorem followsPlan (s : Stmt) : s.FollowsPlan := by
  induction s with
  | declare decl span => exact fun scope => decl.follows_check scope
  | assign target targetSpan value span =>
    intro scope
    refine Run.follows_ofExcept_bind fun declared => ?_
    exact Run.follows_then (value.follows_check scope) fun _ => Run.follows_require _ _
  | ifThen test body span ih =>
    intro scope
    refine Run.follows_count_bind rfl ?_
    refine Run.follows_bind (test.follows_checkCondition scope) fun _ => ?_
    exact follows_block ih scope.enterBody
  | ifElse test body other span ih ihOther =>
    intro scope
    refine Run.follows_count_bind rfl ?_
    refine Run.follows_bind (test.follows_checkCondition scope) fun _ => ?_
    refine Run.follows_bind (follows_block ih scope.enterBody) fun _ => ?_
    exact follows_block ihOther scope.enterBody
  | whileDo test body span ih =>
    intro scope
    refine Run.follows_count_bind rfl ?_
    refine Run.follows_bind (test.follows_checkCondition scope) fun _ => ?_
    exact follows_block ih scope.enterBody
  | doWhile body test span ih =>
    intro scope
    refine Run.follows_count_bind rfl ?_
    refine Run.follows_bind (follows_block ih scope.enterBody) fun _ => ?_
    exact test.follows_checkCondition _
  | block body span ih => exact fun scope => follows_block ih scope.enterBlock
  | expr value span =>
    exact fun scope => Run.follows_then (value.follows_check scope) fun _ => Run.follows_pure ()

/-- A check of statements follows their plan. -/
theorem follows_checkAll (scope : Scope) (stmts : List Stmt) :
    (checkAll scope stmts).1.Follows (planAll scope.depth stmts) :=
  follows_checkAll_of_forall (fun s _ => s.followsPlan) scope

end Stmt

end StaticCheck
