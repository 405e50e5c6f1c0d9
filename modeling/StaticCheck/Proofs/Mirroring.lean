import StaticCheck.Proofs.Offences

/-! # Checks side by side

Two checks mirror each other under a renaming if they give the same result and count the same, or
fail with the same violation up to the name in it.  Mirroring runs make up mirroring runs, and every
rule for expressions keeps mirroring, since a rule sees of its operands only their spans and their
results.  So an expression is checked alike in two scopes as soon as they answer alike for the names
that occur in it (`Expr.mirrors_check`). -/

namespace StaticCheck

/-! ### Renamed violations -/

namespace SemanticError

def rename (f : String → String) : SemanticError → SemanticError
  | undeclared name span => undeclared (f name) span
  | redeclared name span => redeclared (f name) span
  | condition span => condition span
  | expression span => expression span
  | assignment name span => assignment (f name) span

end SemanticError

/-! ### Runs -/

namespace Run

variable {α β : Type} {f : String → String}

/-- The second run does what the first one does, with the name of a violation renamed. -/
structure Mirrors (f : String → String) (run run' : Run α) : Prop where
  outcome : run'.outcome = run.outcome.mapError (SemanticError.rename f)
  tally : run'.tally = run.tally

theorem mirrors_pure (a : α) : Mirrors f (pure a) (pure a) := ⟨rfl, rfl⟩

theorem mirrors_count (tally : Metrics) : Mirrors f (count tally) (count tally) := ⟨rfl, rfl⟩

/-- Mirroring runs may record different events. -/
theorem mirrors_emit (event event' : Event) : Mirrors f (emit event) (emit event') := ⟨rfl, rfl⟩

theorem mirrors_fail (e : SemanticError) : Mirrors f (fail e : Run α) (fail (e.rename f)) :=
  ⟨rfl, rfl⟩

theorem mirrors_require (condition : Bool) (e : SemanticError) :
    Mirrors f (require condition e) (require condition (e.rename f)) := by
  cases condition with
  | false => exact mirrors_fail e
  | true => exact mirrors_pure ()

theorem mirrors_ofExcept {result result' : Except SemanticError α}
    (h : result' = result.mapError (SemanticError.rename f)) :
    Mirrors f (ofExcept result) (ofExcept result') := by
  subst h
  cases result with
  | error e => exact mirrors_fail e
  | ok a => exact mirrors_pure a

theorem mirrors_bind {run run' : Run α} {next next' : α → Run β} (h : Mirrors f run run')
    (hnext : ∀ a, Mirrors f (next a) (next' a)) : Mirrors f (run >>= next) (run' >>= next') := by
  obtain ⟨outcome, tally, events⟩ := run
  obtain ⟨outcome', tally', events'⟩ := run'
  obtain ⟨houtcome, htally⟩ := h
  change outcome' = outcome.mapError (SemanticError.rename f) at houtcome
  change tally' = tally at htally
  subst houtcome htally
  cases outcome with
  | error e => exact ⟨rfl, rfl⟩
  | ok a => exact ⟨(hnext a).outcome, congrArg (tally' + ·) (hnext a).tally⟩

theorem Mirrors.isOk_eq {run run' : Run α} (h : Mirrors f run run') : run'.isOk = run.isOk := by
  unfold isOk
  rw [h.outcome]
  cases run.outcome <;> rfl

end Run

/-! ### Rules -/

/-- The second operand stands where the first one does, and its check mirrors that of the first. -/
structure Operand.Mirrors (f : String → String) (o o' : Operand) : Prop where
  span : o'.span = o.span
  run : Run.Mirrors f o.run o'.run

namespace Typing

open Run

variable {f : String → String}

theorem mirrors_announce (e e' : Expr) {run run' : Run Ty} (h : Run.Mirrors f run run') :
    Run.Mirrors f (announce e run) (announce e' run') := by
  refine mirrors_bind h fun ty => ?_
  exact mirrors_bind (mirrors_emit _ _) fun _ => mirrors_pure ty

/-- A requirement that blames an operand. -/
theorem mirrors_require_operand {o o' : Operand} (h : o.Mirrors f o') (condition : Bool) :
    Run.Mirrors f (require condition (.expression o.span))
      (require condition (.expression o'.span)) := by
  rw [h.span]
  exact mirrors_require condition (.expression o.span)

theorem mirrors_agree (reference : Ty) {os os' : List Operand}
    (h : List.Forall₂ (Operand.Mirrors f) os os') :
    Run.Mirrors f (agree reference os) (agree reference os') := by
  induction h with
  | nil => exact mirrors_pure ()
  | cons ho _ ih =>
    refine mirrors_bind ho.run fun ty => ?_
    exact mirrors_bind (mirrors_require_operand ho _) fun _ => ih

theorem mirrors_allBool {os os' : List Operand} (h : List.Forall₂ (Operand.Mirrors f) os os') :
    Run.Mirrors f (allBool os) (allBool os') := by
  induction h with
  | nil => exact mirrors_pure ()
  | cons ho _ ih =>
    refine mirrors_bind ho.run fun ty => ?_
    exact mirrors_bind (mirrors_require_operand ho _) fun _ => ih

theorem mirrors_list {os os' : List Operand} (h : List.Forall₂ (Operand.Mirrors f) os os') :
    Run.Mirrors f (list os) (list os') := by
  cases h with
  | nil => exact mirrors_pure _
  | cons ho hrest =>
    refine mirrors_bind ho.run fun ty => ?_
    exact mirrors_bind (mirrors_agree ty hrest) fun _ => mirrors_pure _

theorem mirrors_unary (op : UnaryOp) {o o' : Operand} (h : o.Mirrors f o') :
    Run.Mirrors f (unary op o) (unary op o') := by
  cases op with
  | neg =>
    refine mirrors_bind (mirrors_count _) fun _ => mirrors_bind h.run fun ty => ?_
    exact mirrors_bind (mirrors_require_operand h _) fun _ => mirrors_pure ty
  | not =>
    refine mirrors_bind (mirrors_count _) fun _ => mirrors_bind h.run fun ty => ?_
    exact mirrors_bind (mirrors_require_operand h _) fun _ => mirrors_pure _

theorem mirrors_arithmetic {o o' : Operand} {os os' : List Operand} (h : o.Mirrors f o')
    (hrest : List.Forall₂ (Operand.Mirrors f) os os') :
    Run.Mirrors f (arithmetic o os) (arithmetic o' os') := by
  unfold arithmetic
  rw [← hrest.length_eq]
  refine mirrors_bind (mirrors_count _) fun _ => mirrors_bind h.run fun ty => ?_
  refine mirrors_bind (mirrors_require_operand h _) fun _ => ?_
  exact mirrors_bind (mirrors_agree ty hrest) fun _ => mirrors_pure ty

theorem mirrors_logical {o o' : Operand} {os os' : List Operand} (h : o.Mirrors f o')
    (hrest : List.Forall₂ (Operand.Mirrors f) os os') :
    Run.Mirrors f (logical o os) (logical o' os') := by
  unfold logical
  rw [← hrest.length_eq]
  refine mirrors_bind (mirrors_count _) fun _ => ?_
  exact mirrors_bind (mirrors_allBool (.cons h hrest)) fun _ => mirrors_pure _

theorem mirrors_comparison (op : CompareOp) {left left' right right' : Operand}
    (hl : left.Mirrors f left') (hr : right.Mirrors f right') :
    Run.Mirrors f (comparison op left right) (comparison op left' right') := by
  unfold comparison
  rw [hl.span, hr.span]
  refine mirrors_bind hl.run fun leftTy => mirrors_bind hr.run fun rightTy => ?_
  refine mirrors_bind (mirrors_require _ (.expression _)) fun _ => ?_
  refine mirrors_bind (mirrors_count _) fun _ => ?_
  exact mirrors_bind (mirrors_require _ (.expression _)) fun _ => mirrors_pure _

theorem mirrors_condition {o o' : Operand} (h : o.Mirrors f o') :
    Run.Mirrors f (condition o) (condition o') := by
  unfold condition
  rw [h.span]
  exact mirrors_bind h.run fun ty => mirrors_require _ (.condition o.span)

theorem mirrors_ternary {test test' thenArm thenArm' elseArm elseArm' : Operand} (span : Span)
    (htest : test.Mirrors f test') (hthen : thenArm.Mirrors f thenArm')
    (helse : elseArm.Mirrors f elseArm') :
    Run.Mirrors f (ternary test thenArm elseArm span) (ternary test' thenArm' elseArm' span) := by
  refine mirrors_bind (mirrors_count _) fun _ => ?_
  refine mirrors_bind (mirrors_condition htest) fun _ => ?_
  refine mirrors_bind hthen.run fun thenTy => mirrors_bind helse.run fun elseTy => ?_
  exact mirrors_bind (mirrors_require _ (.expression span)) fun _ => mirrors_pure _

end Typing

/-! ### Renamed expressions -/

namespace Expr

def rename (f : String → String) : Expr → Expr
  | int digits span => int digits span
  | real value span => real value span
  | bool value span => bool value span
  | list items span => list (items.map fun e => e.rename f) span
  | ident name span => ident (f name) span
  | unary op operand span => unary op (operand.rename f) span
  | additive first rest span =>
    additive (first.rename f) (rest.map fun link => ⟨link.op, link.operand.rename f⟩) span
  | multiplicative first rest span =>
    multiplicative (first.rename f) (rest.map fun link => ⟨link.op, link.operand.rename f⟩) span
  | logical first rest span =>
    logical (first.rename f) (rest.map fun link => ⟨link.op, link.operand.rename f⟩) span
  | compare left none span => compare (left.rename f) none span
  | compare left (some ⟨op, right⟩) span =>
    compare (left.rename f) (some ⟨op, right.rename f⟩) span
  | ternary test thenArm elseArm span =>
    ternary (test.rename f) (thenArm.rename f) (elseArm.rename f) span
termination_by e => sizeOf e
decreasing_by all_goals exact sizeOf_lt_of_mem_children (by grind [children])

variable {f : String → String} {scope scope' : Scope}

@[simp] theorem span_rename (e : Expr) : (e.rename f).span = e.span := by
  cases e with
  | compare left rhs span =>
    cases rhs with
    | none => rw [rename]; rfl
    | some link => rw [rename]; rfl
  | int _ _ | real _ _ | bool _ _ => rw [rename]
  | _ => rw [rename]; rfl

/-- The two scopes answer alike for every name that occurs in the expression. -/
def AnsweredAlike (f : String → String) (scope scope' : Scope) (e : Expr) : Prop :=
  ∀ name span, ident name span ∈ e.nodes →
    scope'.lookup (f name) span = (scope.lookup name span).mapError (SemanticError.rename f)

theorem AnsweredAlike.child {c e : Expr} (h : e.AnsweredAlike f scope scope')
    (hc : c ∈ e.children) : c.AnsweredAlike f scope scope' :=
  fun name span hname => h name span (mem_nodes_of_mem_children hc hname)

/-- The expression and the renamed one are checked alike in the two scopes. -/
def Mirrored (f : String → String) (scope scope' : Scope) (e : Expr) : Prop :=
  Run.Mirrors f (e.check scope) ((e.rename f).check scope')

theorem Mirrored.operand {e : Expr} (h : e.Mirrored f scope scope') :
    Operand.Mirrors f ⟨e.span, e.check scope⟩ ⟨(e.rename f).span, (e.rename f).check scope'⟩ :=
  ⟨e.span_rename, h⟩

theorem mirrors_operands {items : List Expr} (h : ∀ e ∈ items, e.Mirrored f scope scope') :
    List.Forall₂ (Operand.Mirrors f) (items.map fun e => ⟨e.span, e.check scope⟩)
      ((items.map fun e => e.rename f).map fun e => ⟨e.span, e.check scope'⟩) := by
  rw [List.map_map, List.forall₂_map_left_iff, List.forall₂_map_right_iff, List.forall₂_same]
  exact fun e he => (h e he).operand

/-- The operands behind the first one of a chain. -/
theorem mirrors_links {ω : Type} {e first : Expr} {rest : List (Link ω Expr)}
    (hchildren : e.children = first :: rest.map Link.operand)
    (h : e.AnsweredAlike f scope scope')
    (ih : ∀ link ∈ rest, link.operand.AnsweredAlike f scope scope' →
      link.operand.Mirrored f scope scope') :
    List.Forall₂ (Operand.Mirrors f)
      (rest.map fun link => ⟨link.operand.span, link.operand.check scope⟩)
      ((rest.map fun link => (⟨link.op, link.operand.rename f⟩ : Link ω Expr)).map fun link =>
        ⟨link.operand.span, link.operand.check scope'⟩) := by
  rw [List.map_map, List.forall₂_map_left_iff, List.forall₂_map_right_iff, List.forall₂_same]
  intro link hlink
  have hchild : link.operand ∈ e.children := by
    rw [hchildren]
    exact List.mem_cons_of_mem _ (List.mem_map_of_mem hlink)
  exact (ih link hlink (h.child hchild)).operand

/-- An expression is checked alike in two scopes that answer alike for the names in it. -/
theorem mirrors_check {e : Expr} (h : e.AnsweredAlike f scope scope') :
    e.Mirrored f scope scope' := by
  induction e with
  | int digits span =>
    rw [Mirrored, rename, check, check]
    exact Typing.mirrors_announce _ _ (Run.mirrors_pure _)
  | real value span =>
    rw [Mirrored, rename, check, check]
    exact Typing.mirrors_announce _ _ (Run.mirrors_pure _)
  | bool value span =>
    rw [Mirrored, rename, check, check]
    exact Typing.mirrors_announce _ _ (Run.mirrors_pure _)
  | ident name span =>
    rw [Mirrored, rename, check, check]
    exact Typing.mirrors_announce _ _ (Run.mirrors_ofExcept (h name span (mem_nodes_self _)))
  | list items span ih =>
    rw [Mirrored, rename, check, check]
    have hitems : ∀ e ∈ items, e.Mirrored f scope scope' := fun e he => ih e he (h.child he)
    exact Typing.mirrors_announce _ _ (Typing.mirrors_list (mirrors_operands hitems))
  | unary op operand span ih =>
    rw [Mirrored, rename, check, check]
    have hoperand := ih (h.child List.mem_cons_self)
    exact Typing.mirrors_announce _ _ (Typing.mirrors_unary op hoperand.operand)
  | additive first rest span ih ihs =>
    rw [Mirrored, rename, check, check]
    have hfirst := ih (h.child List.mem_cons_self)
    exact Typing.mirrors_announce _ _
      (Typing.mirrors_arithmetic hfirst.operand (mirrors_links rfl h ihs))
  | multiplicative first rest span ih ihs =>
    rw [Mirrored, rename, check, check]
    have hfirst := ih (h.child List.mem_cons_self)
    exact Typing.mirrors_announce _ _
      (Typing.mirrors_arithmetic hfirst.operand (mirrors_links rfl h ihs))
  | logical first rest span ih ihs =>
    rw [Mirrored, rename, check, check]
    have hfirst := ih (h.child List.mem_cons_self)
    exact Typing.mirrors_announce _ _
      (Typing.mirrors_logical hfirst.operand (mirrors_links rfl h ihs))
  | single left span ih =>
    rw [Mirrored, rename, check, check]
    exact Typing.mirrors_announce _ _ (ih (h.child List.mem_cons_self))
  | compare left op right span ihl ihr =>
    rw [Mirrored, rename, check, check]
    have hleft := ihl (h.child (by simp [children]))
    have hright := ihr (h.child (by simp [children]))
    exact Typing.mirrors_announce _ _
      (Typing.mirrors_comparison op hleft.operand hright.operand)
  | ternary test thenArm elseArm span ihc iht ihe =>
    rw [Mirrored, rename, check, check]
    have htest := ihc (h.child (by simp [children]))
    have hthen := iht (h.child (by simp [children]))
    have helse := ihe (h.child (by simp [children]))
    exact Typing.mirrors_announce _ _
      (Typing.mirrors_ternary span htest.operand hthen.operand helse.operand)

end Expr

end StaticCheck
