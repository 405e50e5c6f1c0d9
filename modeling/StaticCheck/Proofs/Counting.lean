import StaticCheck.Proofs.Plans

/-! # What a check counts

The metrics of a tree are read off it alone: one declaration for each declaration, one loop for
each loop, one conditional for each branch and each choice, and the operators of all expressions.
A check that succeeds counts exactly these, in whatever scope it starts (`Stmt.tally_checkAll`). -/

namespace StaticCheck

namespace Stmt

mutual

def metrics : Stmt → Metrics
  | declare decl _ => .declaration + decl.init.elim 0 Expr.metrics
  | assign _ _ value _ => value.metrics
  | ifElse test ⟨stmts, _⟩ none _ => .conditional + (test.metrics + metricsAll stmts)
  | ifElse test ⟨stmts, _⟩ (some ⟨others, _⟩) _ =>
    .conditional + (test.metrics + (metricsAll stmts + metricsAll others))
  | whileDo test ⟨stmts, _⟩ _ => .loop + (test.metrics + metricsAll stmts)
  | doWhile ⟨stmts, _⟩ test _ => .loop + (metricsAll stmts + test.metrics)
  | block ⟨stmts, _⟩ _ => metricsAll stmts
  | expr value _ => value.metrics
termination_by structural s => s

def metricsAll : List Stmt → Metrics
  | [] => 0
  | s :: rest => s.metrics + metricsAll rest
termination_by structural rest => rest

end

theorem metrics_planAll_of_forall {stmts : List Stmt} {depth : Nat}
    (h : ∀ s ∈ stmts, (s.plan depth).metrics = s.metrics) :
    (planAll depth stmts).metrics = metricsAll stmts := by
  induction stmts with
  | nil => rfl
  | cons s rest ih =>
    obtain ⟨hs, hrest⟩ := List.forall_mem_cons.1 h
    rw [planAll, Plan.metrics_add, hs, ih hrest, metricsAll]

/-- Entering and leaving a block counts nothing. -/
theorem metrics_block_of_forall {stmts : List Stmt} {depth : Nat}
    (h : ∀ s ∈ stmts, (s.plan depth).metrics = s.metrics) :
    (Plan.block depth (planAll depth stmts)).metrics = metricsAll stmts := by
  change 0 + ((planAll depth stmts).metrics + 0) = _
  rw [metrics_planAll_of_forall h, Metrics.add_zero, Metrics.zero_add]

/-- The plan of a statement counts its metrics, however deep the statement stands. -/
theorem metrics_plan (depth : Nat) (s : Stmt) : (s.plan depth).metrics = s.metrics := by
  induction s generalizing depth with
  | declare decl span =>
    change Metrics.declaration + (decl.init.elim 0 Expr.plan).metrics = _
    rw [metrics]
    cases decl.init <;> rfl
  | assign | expr => rfl
  | ifThen test body span ih =>
    have hbody := metrics_block_of_forall fun s hs => ih s hs (depth + 1)
    rw [plan, Plan.metrics_add, Plan.metrics_add, hbody, metrics]
    rfl
  | ifElse test body other span ih ihOther =>
    have hbody := metrics_block_of_forall fun s hs => ih s hs (depth + 1)
    have hother := metrics_block_of_forall fun s hs => ihOther s hs (depth + 1)
    rw [plan, Plan.metrics_add, Plan.metrics_add, Plan.metrics_add, hbody, hother, metrics]
    rfl
  | whileDo test body span ih =>
    have hbody := metrics_block_of_forall fun s hs => ih s hs (depth + 1)
    rw [plan, Plan.metrics_add, Plan.metrics_add, hbody, metrics]
    rfl
  | doWhile body test span ih =>
    have hbody := metrics_block_of_forall fun s hs => ih s hs (depth + 1)
    rw [plan, Plan.metrics_add, Plan.metrics_add, hbody, metrics]
    rfl
  | block body span ih => exact metrics_block_of_forall fun s hs => ih s hs (depth + 1)

theorem metrics_planAll (depth : Nat) (stmts : List Stmt) :
    (planAll depth stmts).metrics = metricsAll stmts :=
  metrics_planAll_of_forall fun s _ => s.metrics_plan depth

theorem tally_checkAll {scope : Scope} {stmts : List Stmt}
    (hall : (checkAll scope stmts).1.outcome = .ok ()) :
    (checkAll scope stmts).1.tally = metricsAll stmts := by
  rw [((follows_checkAll scope stmts).whole () hall).1, metrics_planAll]

end Stmt

/-- The metrics of a program that checks are those of its tree. -/
theorem Program.metrics_of_analyze {p : Program} {m : Metrics} (h : p.analyze = .ok m) :
    m = Stmt.metricsAll p.stmts := by
  obtain ⟨hall, rfl⟩ := analyze_eq_ok_iff.1 h
  exact Stmt.tally_checkAll hall

end StaticCheck
