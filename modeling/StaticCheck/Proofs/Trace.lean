import StaticCheck.Check
import StaticCheck.Proofs.Concatenation
import StaticCheck.Proofs.Plans

/-! # What the events of a check tell

The events of a check follow the traversal of the program.  Expressions are recorded in the order of
`Program.listing`, every node behind its operands; blocks are entered and left like brackets, each
at its own depth; and the completion of the check comes last.  A check that fails records a first
part of all this.

The steps of a plan tell this of its statements (`Stmt.tells_planAll`).  Since every check follows
its plan, the events tell it as well (`trace_narrates`). -/

namespace StaticCheck

/-! ### Brackets -/

/-- That a block is entered or left, with the depth that is recorded. -/
inductive Bracket where
  | opening (depth : Nat)
  | closing (depth : Nat)
deriving DecidableEq

namespace Bracket

def isOpening : Bracket → Bool
  | opening _ => true
  | closing _ => false

def isClosing : Bracket → Bool
  | opening _ => false
  | closing _ => true

/-- The recorded depth is the number of open blocks, the one that is entered or left included: those
that are open from the start, and those entered and not left among the brackets `before`. -/
def Counts (start : Nat) (before : List Bracket) : Bracket → Prop
  | opening depth => depth + before.countP isClosing = start + before.countP isOpening + 1
  | closing depth => depth + before.countP isClosing = start + before.countP isOpening

theorem counts_opening_cons {start : Nat} {before : List Bracket} {b : Bracket}
    (h : b.Counts (start + 1) before) (depth : Nat) :
    b.Counts start (.opening depth :: before) := by
  cases b with
  | opening | closing =>
    simp only [Counts, List.countP_cons, isOpening, isClosing, if_true, Bool.false_eq_true,
      if_false] at h ⊢
    omega

theorem counts_closing_cons {start : Nat} {before : List Bracket} {b : Bracket}
    (h : b.Counts start before) (depth : Nat) :
    b.Counts (start + 1) (.closing depth :: before) := by
  cases b with
  | opening | closing =>
    simp only [Counts, List.countP_cons, isOpening, isClosing, if_true, Bool.false_eq_true,
      if_false] at h ⊢
    omega

end Bracket

/-- The brackets of whole blocks that stand side by side, with so many blocks around them. -/
inductive Nested : Nat → List Bracket → Prop
  | nil (depth : Nat) : Nested depth []
  | block {depth : Nat} {inner rest : List Bracket} : Nested (depth + 1) inner → Nested depth rest →
      Nested depth (.opening (depth + 1) :: (inner ++ .closing (depth + 1) :: rest))

/-- Brackets whose depths are right one after the other if so many blocks are open at the start. -/
def Levelled : Nat → List Bracket → Prop
  | _, [] => True
  | start, .opening depth :: rest => depth = start + 1 ∧ Levelled (start + 1) rest
  | 0, .closing _ :: _ => False
  | start + 1, .closing depth :: rest => depth = start + 1 ∧ Levelled start rest

namespace Nested

variable {depth : Nat} {l rest : List Bracket}

theorem append (h : Nested depth l) (hrest : Nested depth rest) : Nested depth (l ++ rest) := by
  induction h with
  | nil depth => exact hrest
  | block hinner _ _ ih =>
    rw [List.cons_append, List.append_assoc, List.cons_append]
    exact .block hinner (ih hrest)

/-- Behind whole blocks as many blocks are open as before them. -/
theorem levelled_append (h : Nested depth l) (hrest : Levelled depth rest) :
    Levelled depth (l ++ rest) := by
  induction h generalizing rest with
  | nil depth => exact hrest
  | block _ _ ihinner ih =>
    rw [List.cons_append, List.append_assoc, List.cons_append]
    exact ⟨rfl, ihinner ⟨rfl, ih hrest⟩⟩

theorem levelled (h : Nested depth l) : Levelled depth l := by
  have hall : Levelled depth (l ++ []) := h.levelled_append trivial
  rwa [List.append_nil] at hall

end Nested

/-- Depths that are right one after the other are the numbers of open blocks. -/
theorem Levelled.counts {start : Nat} {before after : List Bracket} {b : Bracket}
    (h : Levelled start (before ++ b :: after)) : b.Counts start before := by
  induction before generalizing start with
  | nil =>
    cases b with
    | opening depth => exact h.1
    | closing depth =>
      cases start with
      | zero => exact h.elim
      | succ n => exact h.1
  | cons c before ih =>
    cases c with
    | opening depth => exact Bracket.counts_opening_cons (ih h.2) depth
    | closing depth =>
      cases start with
      | zero => exact h.elim
      | succ n => exact Bracket.counts_closing_cons (ih h.2) depth

/-! ### Steps and events -/

namespace Step

/-- The expression that a step finds the type of. -/
def typed? : Step → Option Expr
  | typed e => some e
  | _ => none

def bracket? : Step → Option Bracket
  | entered depth => some (.opening depth)
  | left depth => some (.closing depth)
  | _ => none

end Step

namespace Event

/-- The place and the text of the expression whose type an event records. -/
def typed? : Event → Option (Span × String)
  | typed e _ => some (e.span, e.render)
  | _ => none

def bracket? : Event → Option Bracket
  | entered depth _ => some (.opening depth)
  | left depth => some (.closing depth)
  | _ => none

theorem filterMap_typed? (events : List Event) : events.filterMap typed? =
    ((events.map step).filterMap Step.typed?).map fun e => (e.span, e.render) := by
  rw [List.filterMap_map, List.map_filterMap]
  refine List.filterMap_congr fun event _ => ?_
  cases event <;> rfl

theorem filterMap_bracket? (events : List Event) :
    events.filterMap bracket? = (events.map step).filterMap Step.bracket? := by
  rw [List.filterMap_map]
  refine List.filterMap_congr fun event _ => ?_
  cases event <;> rfl

end Event

/-! ### Plans -/

/-- What the steps of a plan tell: they find the types of the nodes of these expressions, enter and
leave whole blocks, and complete nothing. -/
structure Plan.Tells (depth : Nat) (exprs : List Expr) (plan : Plan) : Prop where
  typed : plan.steps.filterMap Step.typed? = exprs.flatMap Expr.nodes
  nested : Nested depth (plan.steps.filterMap Step.bracket?)
  incomplete : Step.completed ∉ plan.steps

namespace Plan

variable {depth : Nat} {es es' : List Expr} {a b : Plan}

theorem tells_counting (m : Metrics) : (counting m).Tells depth [] :=
  ⟨rfl, .nil depth, List.not_mem_nil⟩

theorem Tells.add (ha : a.Tells depth es) (hb : b.Tells depth es') :
    (a + b).Tells depth (es ++ es') where
  typed := by
    rw [steps_add, List.filterMap_append, ha.typed, hb.typed, List.flatMap_append]
  nested := by
    rw [steps_add, List.filterMap_append]
    exact ha.nested.append hb.nested
  incomplete := by
    rw [steps_add, List.mem_append, not_or]
    exact ⟨ha.incomplete, hb.incomplete⟩

theorem Tells.block (h : a.Tells (depth + 1) es) :
    (Plan.block (depth + 1) a).Tells depth es where
  typed := by
    simp only [Plan.block, steps_add, List.filterMap_append, h.typed]
    exact List.append_nil _
  nested := by
    simp only [Plan.block, steps_add, List.filterMap_append]
    exact .block h.nested (.nil depth)
  incomplete := by
    have hbody := h.incomplete
    simpa [Plan.block, single] using hbody

end Plan

theorem Expr.tells_plan (e : Expr) (depth : Nat) : e.plan.Tells depth [e] where
  typed := by
    rw [List.flatMap_singleton]
    change (e.nodes.map Step.typed).filterMap Step.typed? = e.nodes
    rw [List.filterMap_map]
    exact List.filterMap_some
  nested := by
    have hnone : e.plan.steps.filterMap Step.bracket? = [] := by
      change (e.nodes.map Step.typed).filterMap Step.bracket? = []
      rw [List.filterMap_map]
      exact List.filterMap_eq_nil_iff.2 fun _ _ => rfl
    rw [hnone]
    exact .nil depth
  incomplete := by
    change Step.completed ∉ e.nodes.map Step.typed
    simp

theorem Declaration.tells_plan (decl : Declaration) (depth : Nat) :
    decl.plan.Tells depth decl.init.toList := by
  have hname : (⟨.declaration, [.declared decl.name]⟩ : Plan).Tells depth [] :=
    ⟨rfl, .nil depth, by simp⟩
  have hinit : (decl.init.elim 0 Expr.plan).Tells depth decl.init.toList := by
    cases decl.init with
    | none => exact Plan.tells_counting 0
    | some init => exact init.tells_plan depth
  exact hname.add hinit

namespace Stmt

theorem tells_planAll_of_forall {stmts : List Stmt} {depth : Nat}
    (h : ∀ s ∈ stmts, ∀ depth, (s.plan depth).Tells depth s.exprs) :
    (planAll depth stmts).Tells depth (exprsAll stmts) := by
  induction stmts with
  | nil => exact Plan.tells_counting 0
  | cons s rest ih =>
    obtain ⟨hs, hrest⟩ := List.forall_mem_cons.1 h
    exact (hs depth).add (ih hrest)

theorem tells_plan (s : Stmt) : ∀ depth, (s.plan depth).Tells depth s.exprs := by
  induction s with
  | declare decl span => exact decl.tells_plan
  | assign target targetSpan value span => exact value.tells_plan
  | ifThen test body span ih =>
    intro depth
    refine (Plan.tells_counting _).add ((test.tells_plan depth).add ?_)
    exact (tells_planAll_of_forall ih).block
  | ifElse test body other span ih ihOther =>
    intro depth
    refine (Plan.tells_counting _).add ((test.tells_plan depth).add ?_)
    exact (tells_planAll_of_forall ih).block.add (tells_planAll_of_forall ihOther).block
  | whileDo test body span ih =>
    intro depth
    refine (Plan.tells_counting _).add ((test.tells_plan depth).add ?_)
    exact (tells_planAll_of_forall ih).block
  | doWhile body test span ih =>
    intro depth
    refine (Plan.tells_counting _).add (Plan.Tells.add ?_ (test.tells_plan depth))
    exact (tells_planAll_of_forall ih).block
  | block body span ih => exact fun depth => (tells_planAll_of_forall ih).block
  | expr value span => exact value.tells_plan

theorem tells_planAll (depth : Nat) (stmts : List Stmt) :
    (planAll depth stmts).Tells depth (exprsAll stmts) :=
  tells_planAll_of_forall fun s _ => s.tells_plan

end Stmt

/-! ### Runs that follow such a plan -/

section runs

variable {α : Type} {run : Run α} {plan : Plan} {depth : Nat} {es : List Expr}

theorem Run.Follows.typed (h : run.Follows plan) (htells : plan.Tells depth es) :
    run.events.filterMap Event.typed? <+:
      (es.flatMap Expr.nodes).map fun e => (e.span, e.render) := by
  rw [Event.filterMap_typed?, ← htells.typed]
  exact (h.steps.filterMap _).map _

theorem Run.Follows.typed_of_ok (h : run.Follows plan) (htells : plan.Tells depth es) {x : α}
    (hok : run.outcome = .ok x) : run.events.filterMap Event.typed? =
      (es.flatMap Expr.nodes).map fun e => (e.span, e.render) := by
  rw [Event.filterMap_typed?, ← htells.typed, (h.whole x hok).2]

theorem Run.Follows.brackets (h : run.Follows plan) :
    run.events.filterMap Event.bracket? <+: plan.steps.filterMap Step.bracket? := by
  rw [Event.filterMap_bracket?]
  exact h.steps.filterMap _

theorem Run.Follows.brackets_of_ok (h : run.Follows plan) {x : α} (hok : run.outcome = .ok x) :
    run.events.filterMap Event.bracket? = plan.steps.filterMap Step.bracket? := by
  rw [Event.filterMap_bracket?, (h.whole x hok).2]

theorem Run.Follows.incomplete (h : run.Follows plan) (htells : plan.Tells depth es)
    (m : Metrics) : .completed m ∉ run.events := by
  intro hm
  have hstep : Step.completed ∈ run.events.map Event.step := List.mem_map_of_mem hm
  exact htells.incomplete (h.steps.subset hstep)

end runs

/-! ### Checks of programs -/

namespace Program

/-- The nodes of all expressions of a program in the order they are checked, each as its place and
its text. -/
def listing (p : Program) : List (Span × String) :=
  (p.exprs.flatMap Expr.nodes).map fun e => (e.span, e.render)

variable {p : Program}

theorem body_follows (p : Program) : p.body.Follows (Stmt.planAll 0 p.stmts) :=
  Stmt.follows_checkAll .empty p.stmts

theorem body_tells (p : Program) : (Stmt.planAll 0 p.stmts).Tells 0 p.exprs :=
  Stmt.tells_planAll 0 p.stmts

theorem body_of_analyze {m : Metrics} (h : p.analyze = .ok m) : p.body.outcome = .ok () :=
  (analyze_eq_ok_iff.1 h).1

/-- What is read off all events but the completion is read off those of the statements. -/
theorem filterMap_check {β : Type} {f : Event → Option β} (hf : ∀ m, f (.completed m) = none)
    (p : Program) : p.check.events.filterMap f = p.body.events.filterMap f := by
  have hlast : (p.analyze.toOption.toList.map Event.completed).filterMap f = [] := by
    rw [List.filterMap_map]
    exact List.filterMap_eq_nil_iff.2 fun m _ => hf m
  rw [check_eq, List.filterMap_append, hlast, List.append_nil]

theorem countP_check {f : Event → Bool} (hf : ∀ m, f (.completed m) = false) (p : Program) :
    p.check.events.countP f = p.body.events.countP f := by
  have hlast : (p.analyze.toOption.toList.map Event.completed).countP f = 0 := by
    rw [List.countP_map]
    exact List.countP_eq_zero.2 fun m _ => by simp [hf m]
  rw [check_eq, List.countP_append, hlast, Nat.add_zero]

end Program

/-- What the events of a check tell about the program and about the outcome. -/
structure Checked.Narrates (p : Program) (checked : Checked) : Prop where
  /-- Nodes are recorded in the order of the listing. -/
  typed : checked.events.filterMap Event.typed? <+: p.listing
  typed_of_ok : ∀ m, checked.outcome = .ok m → checked.events.filterMap Event.typed? = p.listing
  /-- Blocks that are still open at a failure could be closed. -/
  nested : ∃ rest, Nested 0 (checked.events.filterMap Event.bracket? ++ rest)
  nested_of_ok : ∀ m, checked.outcome = .ok m → Nested 0 (checked.events.filterMap Event.bracket?)
  depths : ∀ before b after, checked.events.filterMap Event.bracket? = before ++ b :: after →
    b.Counts 0 before
  /-- A declaration is recorded where it is counted, also if the check fails later. -/
  declared : checked.events.countP Event.isDeclared = p.check.tally.declarations
  completed_of_ok : ∀ m, checked.outcome = .ok m →
    ∃ front, checked.events = front ++ [.completed m] ∧ ∀ m', .completed m' ∉ front
  incomplete_of_error : ∀ failure, checked.outcome = .error failure →
    ∀ m, .completed m ∉ checked.events

/-- A text that is read is checked like its program, whatever is shown besides. -/
theorem checkWith_of_parse_ok {source : String} {p : Program} (h : parse source = .ok p)
    (options : Options) : (checkWith options source).outcome = p.analyze.mapError .semantic ∧
      (checkWith options source).events = p.check.events := by
  obtain ⟨ts, stop, htokens, -⟩ := parse_eq_ok_iff.1 h
  have hnotes : ∃ notes, options.tokenNotes source = .ok notes := by
    rw [Options.tokenNotes, htokens]
    cases options.listTokens with
    | true => exact ⟨_, rfl⟩
    | false => exact ⟨_, rfl⟩
  obtain ⟨notes, hnotes⟩ := hnotes
  rw [checkWith, hnotes, h]
  exact ⟨rfl, rfl⟩

theorem Program.narrates (p : Program) (notes : List String) :
    Checked.Narrates p ⟨p.analyze.mapError .semantic, notes, p.check.events⟩ := by
  have hfollows := p.body_follows
  have htells := p.body_tells
  have htyped : p.check.events.filterMap Event.typed? = _ := p.filterMap_check fun _ => rfl
  have hbrackets : p.check.events.filterMap Event.bracket? = _ := p.filterMap_check fun _ => rfl
  obtain ⟨rest, hrest⟩ := hfollows.brackets
  have hok : ∀ m, p.analyze.mapError Failure.semantic = .ok m → p.analyze = .ok m := by
    intro m hm
    cases hp : p.analyze with
    | error e =>
      rw [hp] at hm
      cases hm
    | ok m' =>
      rw [hp] at hm
      exact congrArg _ (Except.ok.inj hm)
  constructor
  case typed =>
    rw [htyped]
    exact hfollows.typed htells
  case typed_of_ok =>
    intro m hm
    rw [htyped]
    exact hfollows.typed_of_ok htells (body_of_analyze (hok m hm))
  case nested =>
    refine ⟨rest, ?_⟩
    rw [hbrackets, hrest]
    exact htells.nested
  case nested_of_ok =>
    intro m hm
    rw [hbrackets, hfollows.brackets_of_ok (body_of_analyze (hok m hm))]
    exact htells.nested
  case depths =>
    intro before b after hsplit
    -- the brackets so far, with those of the plan behind them, are levelled from depth 0
    have hlevelled := htells.nested.levelled
    rw [← hrest, ← hbrackets, hsplit, List.append_assoc] at hlevelled
    exact hlevelled.counts
  case declared =>
    rw [p.countP_check fun _ => rfl, p.check_eq]
    exact hfollows.declared
  case completed_of_ok =>
    intro m hm
    exact ⟨p.body.events, check_events (hok m hm), hfollows.incomplete htells⟩
  case incomplete_of_error =>
    intro failure hfail m hm
    cases hp : p.analyze with
    | ok m' =>
      rw [hp] at hfail
      cases hfail
    | error e =>
      rw [p.check_eq, hp] at hm
      simp only [Except.toOption, Option.toList_none, List.map_nil, List.append_nil] at hm
      exact hfollows.incomplete htells m hm

/-- **The events of a check mirror the traversal.**  Whatever is shown besides, the events of a text
that is read tell what was checked: a first part of the listing of all nodes, and all of it if the
check succeeds; whole blocks, or a first part of such, at the depths that count the open blocks; a
declaration for each one that was counted; and the completion last, if and only if the check
succeeds. -/
theorem trace_narrates (options : Options) {source : String} {p : Program}
    (h : parse source = .ok p) : (checkWith options source).Narrates p := by
  obtain ⟨houtcome, hevents⟩ := checkWith_of_parse_ok h options
  have hall := p.narrates (checkWith options source).notes
  rwa [← houtcome, ← hevents] at hall

/-- A value that does not fit inside two blocks: both are still open then, and no node behind the
value was looked at. -/
theorem trace_narrates_open_blocks :
    ∃ p, parse "int a = 1; \x7b if (a < 2) \x7b a = !true; \x7d a; \x7d" = .ok p ∧
    (checkWith .none "int a = 1; \x7b if (a < 2) \x7b a = !true; \x7d a; \x7d").Narrates p ∧
    (checkWith .none "int a = 1; \x7b if (a < 2) \x7b a = !true; \x7d a; \x7d").events.filterMap
      Event.bracket? = [.opening 1, .opening 2] := by
  have hok : (parse "int a = 1; \x7b if (a < 2) \x7b a = !true; \x7d a; \x7d").isOk = true := by
    decide +kernel
  obtain ⟨p, hp⟩ := exists_parse_of_isOk hok
  exact ⟨p, hp, trace_narrates .none hp, by decide +kernel⟩

end StaticCheck
