import StaticCheck.Proofs.Offences
import StaticCheck.Proofs.Strict

/-! # Leniency is about unknown type names

The rules let an operand of unknown type pass where the strict checker asks for equal types.  If all
declarations of a program name one of the four types, this makes no difference: then every type that
is bound in a scope or found for an expression is one of the four, and both checkers make the same
requirements in the same order (`analyze_eq_strict`). -/

namespace StaticCheck

/-! ### Kinds and types -/

namespace Kind

variable (a b : Kind)

theorem ty_ne_undefined : a.ty ≠ .undefined := by
  cases a <;> decide

@[simp] theorem isDefined_ty : a.ty.isDefined = true := by
  cases a <;> rfl

@[simp] theorem isNumeric_ty : a.ty.isNumeric = a.isNumber := by
  cases a <;> rfl

@[simp] theorem ty_beq_ty : (a.ty == b.ty) = (a == b) := by
  cases a <;> cases b <;> rfl

@[simp] theorem ty_beq_bool : (a.ty == .bool) = (a == .bool) := ty_beq_ty a .bool

@[simp] theorem conflicts_ty : a.ty.conflicts b.ty = !(a == b) := by
  cases a <;> cases b <;> rfl

@[simp] theorem fits_ty : a.ty.fits b.ty = (a == b) := by
  rw [Ty.fits, isDefined_ty, ty_beq_ty]
  rfl

/-- One of the four names stands for a kind, and for its type. -/
theorem exists_of_mem_names {name : String} (h : name ∈ names) :
    ∃ kind, ofName? name = some kind ∧ Ty.ofName name = kind.ty := by
  simp only [names, List.mem_cons, List.not_mem_nil, or_false] at h
  obtain rfl | rfl | rfl | rfl := h
  · exact ⟨int, by decide, by decide⟩
  · exact ⟨bool, by decide, by decide⟩
  · exact ⟨real, by decide, by decide⟩
  · exact ⟨list, by decide, by decide⟩

end Kind

/-! ### Agreement -/

/-- Both fail with the same violation, or both succeed with related results. -/
inductive Alike {α β : Type} (V : α → β → Prop) :
    Except SemanticError α → Except SemanticError β → Prop
  | error (e : SemanticError) : Alike V (.error e) (.error e)
  | ok {a : α} {b : β} : V a b → Alike V (.ok a) (.ok b)

namespace Run

variable {α β γ δ : Type} {V : α → β → Prop} {W : γ → δ → Prop}

/-- The run ends like the result, and finds no expression of unknown type on the way. -/
structure Agrees (V : α → β → Prop) (run : Run α) (result : Except SemanticError β) : Prop where
  outcome : Alike V run.outcome result
  known : ∀ e t, .typed e t ∈ run.events → t ≠ .undefined

theorem agrees_pure {a : α} {b : β} (h : V a b) : Agrees V (pure a) (pure b) :=
  ⟨.ok h, fun _ _ ht => by cases ht⟩

theorem agrees_fail (e : SemanticError) : Agrees V (fail e) (.error e) :=
  ⟨.error e, fun _ _ ht => by cases ht⟩

theorem agrees_bind {run : Run α} {result : Except SemanticError β} {next : α → Run γ}
    {next' : β → Except SemanticError δ} (h : Agrees V run result)
    (hnext : ∀ a b, run.outcome = .ok a → V a b → Agrees W (next a) (next' b)) :
    Agrees W (run >>= next) (result >>= next') := by
  obtain ⟨outcome, tally, events⟩ := run
  obtain ⟨houtcome, hknown⟩ := h
  cases houtcome with
  | error e => exact ⟨.error e, hknown⟩
  | ok hab =>
    have hthen := hnext _ _ rfl hab
    refine ⟨hthen.outcome, fun e t ht => ?_⟩
    obtain ht | ht := List.mem_append.1 ht
    · exact hknown e t ht
    · exact hthen.known e t ht

/-- The last step of the strict checker, which gives another result for the one it has. -/
theorem Agrees.finish {W : α → δ → Prop} {run : Run α} {result : Except SemanticError β} {g : β → δ}
    (h : Agrees V run result) (hg : ∀ a b, V a b → W a (g b)) :
    Agrees W run (result >>= fun b => pure (g b)) := by
  have hboth := agrees_bind h fun a b _ hab => agrees_pure (hg a b hab)
  rwa [bind_pure] at hboth

theorem agrees_ofExcept {x : Except SemanticError α} {y : Except SemanticError β}
    (h : Alike V x y) : Agrees V (ofExcept x) y := by
  cases h with
  | error e => exact agrees_fail e
  | ok hab => exact agrees_pure hab

/-- Counting has no part in agreement. -/
theorem agrees_count_bind {m : Metrics} {next : Unit → Run α} {result : Except SemanticError β}
    (h : Agrees V (next ()) result) : Agrees V (count m >>= next) result :=
  ⟨h.outcome, h.known⟩

theorem agrees_emit_bind {event : Event} {next : Unit → Run α} {result : Except SemanticError β}
    (hevent : ∀ e t, event = .typed e t → t ≠ .undefined) (h : Agrees V (next ()) result) :
    Agrees V (emit event >>= next) result := by
  refine ⟨h.outcome, fun e t ht => ?_⟩
  obtain ht | ht := List.mem_cons.1 ht
  · exact hevent e t ht.symm
  · exact h.known e t ht

theorem agrees_require_bind {c c' : Bool} {e : SemanticError} {next : Unit → Run α}
    {next' : Unit → Except SemanticError β} (hc : c = c') (h : Agrees V (next ()) (next' ())) :
    Agrees V (require c e >>= next) (Strict.demand c' e >>= next') := by
  subst hc
  cases c with
  | false => exact agrees_fail e
  | true => exact agrees_bind (agrees_pure (V := fun _ _ => True) trivial) fun _ _ _ _ => h

/-- A requirement that the strict checker does not make. -/
theorem agrees_require_of_true {c : Bool} {e : SemanticError} {next : Unit → Run α}
    {result : Except SemanticError β} (hc : c = true) (h : Agrees V (next ()) result) :
    Agrees V (require c e >>= next) result := by
  subst hc
  exact ⟨h.outcome, h.known⟩

/-- A last requirement. -/
theorem agrees_require {c c' : Bool} (hc : c = c') (e : SemanticError) :
    Agrees (fun _ _ => True) (require c e) (Strict.demand c' e) := by
  subst hc
  cases c with
  | false => exact agrees_fail e
  | true => exact agrees_pure trivial

end Run

/-! ### Rules -/

def Ty.OfKind (t : Ty) (kind : Kind) : Prop := t = kind.ty

/-- The operands stand at the same place and agree on the type. -/
structure Operand.Agrees (o : Operand) (o' : Span × Except SemanticError Kind) : Prop where
  span : o.span = o'.1
  run : o.run.Agrees Ty.OfKind o'.2

namespace Typing

open Run Strict

variable {o left right : Operand} {o' left' right' : Span × Except SemanticError Kind}
  {os : List Operand} {os' : List (Span × Except SemanticError Kind)}

theorem agrees_announce {e : Expr} {run : Run Ty} {result : Except SemanticError Kind}
    (h : run.Agrees Ty.OfKind result) : (announce e run).Agrees Ty.OfKind result := by
  rw [← bind_pure result]
  refine agrees_bind h fun t kind _ ht => agrees_emit_bind ?_ (agrees_pure ht)
  rintro _ _ ⟨⟩
  rw [ht]
  exact kind.ty_ne_undefined

theorem agrees_agree (kind : Kind) (h : List.Forall₂ Operand.Agrees os os') :
    (agree kind.ty os).Agrees (fun _ _ => True) (allOf kind os') := by
  induction h with
  | nil => exact agrees_pure trivial
  | @cons o o' _ _ ho _ ih =>
    refine agrees_bind ho.run fun t found _ ht => ?_
    subst ht
    rw [ho.span]
    exact agrees_require_bind (by simp) ih

theorem agrees_allBool (h : List.Forall₂ Operand.Agrees os os') :
    (allBool os).Agrees (fun _ _ => True) (allOf .bool os') := by
  induction h with
  | nil => exact agrees_pure trivial
  | @cons o o' _ _ ho _ ih =>
    refine agrees_bind ho.run fun t found _ ht => ?_
    subst ht
    rw [ho.span]
    exact agrees_require_bind (by simp) ih

theorem agrees_arithmetic (ho : o.Agrees o') (h : List.Forall₂ Operand.Agrees os os') :
    (arithmetic o os).Agrees Ty.OfKind (numbers o' os') := by
  refine agrees_count_bind (agrees_bind ho.run fun t found _ ht => ?_)
  subst ht
  rw [ho.span]
  refine agrees_require_bind (by simp) ?_
  exact agrees_bind (agrees_agree found h) fun _ _ _ _ => agrees_pure rfl

theorem agrees_condition (ho : o.Agrees o') :
    (Typing.condition o).Agrees (fun _ _ => True) (Strict.condition o') := by
  refine agrees_bind ho.run fun t found _ ht => ?_
  subst ht
  rw [ho.span]
  exact agrees_require (by simp) _

theorem comparable_ofKind (op : CompareOp) {leftKind rightKind : Kind} {leftTy rightTy : Ty}
    (hl : leftTy.OfKind leftKind) (hr : rightTy.OfKind rightKind) :
    comparable op leftTy rightTy =
      if op.isOrdering then leftKind.isNumber && rightKind.isNumber else leftKind == rightKind := by
  subst hl hr
  rw [comparable, Kind.isNumeric_ty, Kind.isNumeric_ty, Kind.ty_beq_ty]

end Typing

/-! ### Scopes -/

/-- The context holds what the scope holds, and all types are known. -/
structure Scope.Models (scope : Scope) (context : Strict.Context) : Prop where
  depth : scope.depth = context.depth
  shadowing : scope.shadowing = context.shadowing
  get? : ∀ name, Option.Rel (fun b entry => b.ty = entry.1.ty ∧ b.depth = entry.2)
    (scope.get? name) (context.find? name)

namespace Scope.Models

open Strict

variable {scope : Scope} {context : Context}

theorem empty : Models .empty .empty := ⟨rfl, rfl, fun _ => .none⟩

theorem enterBody (h : scope.Models context) : scope.enterBody.Models context.enterBody :=
  ⟨congrArg (· + 1) h.depth, rfl, h.get?⟩

theorem enterBlock (h : scope.Models context) : scope.enterBlock.Models context.enterBlock :=
  ⟨congrArg (· + 1) h.depth, rfl, h.get?⟩

theorem lookup (h : scope.Models context) (name : String) (span : Span) :
    Alike Ty.OfKind (scope.lookup name span) (context.kindOf name span) := by
  have hname := h.get? name
  unfold Scope.lookup Context.kindOf
  generalize scope.get? name = found, context.find? name = entry at hname
  cases hname with
  | none => exact .error _
  | some hb => exact .ok hb.1

theorem blocks (h : scope.Models context) (name : String) :
    (!scope.blocks name) = context.admits name := by
  have hname := h.get? name
  unfold Scope.blocks Context.admits
  rw [h.depth, h.shadowing]
  generalize scope.get? name = found, context.find? name = entry at hname
  cases hname with
  | none => rfl
  | some hb => simp [hb.2, bne]

theorem bind (h : scope.Models context) {b : Binding} {kind : Kind} (hty : b.ty = kind.ty)
    (hdepth : b.depth = scope.depth) : (scope.insert b).Models (context.bind b.name kind) where
  depth := h.depth
  shadowing := h.shadowing
  get? name := by
    by_cases hname : name = b.name
    · subst hname
      rw [get?_insert_self, Context.bind]
      simp only [if_true]
      exact .some ⟨hty, hdepth.trans h.depth⟩
    · rw [get?_insert_of_ne scope hname, Context.bind]
      simp only [if_neg hname]
      exact h.get? name

end Scope.Models

/-! ### Expressions -/

namespace Expr

open Run Strict

variable {scope : Scope} {context : Context}

/-- Both checkers agree on the expression. -/
def Agrees (scope : Scope) (context : Context) (e : Expr) : Prop :=
  (e.check scope).Agrees Ty.OfKind (kind context e)

theorem Agrees.operand {e : Expr} (h : e.Agrees scope context) :
    Operand.Agrees ⟨e.span, e.check scope⟩ (e.span, kind context e) := ⟨rfl, h⟩

theorem agrees_items {items : List Expr} (h : ∀ e ∈ items, e.Agrees scope context) :
    List.Forall₂ Operand.Agrees (items.map fun e => ⟨e.span, e.check scope⟩)
      (items.map fun e => (e.span, kind context e)) := by
  rw [List.forall₂_map_left_iff, List.forall₂_map_right_iff, List.forall₂_same]
  exact fun e he => (h e he).operand

theorem agrees_links {ω : Type} {rest : List (Link ω Expr)}
    (h : ∀ link ∈ rest, link.operand.Agrees scope context) :
    List.Forall₂ Operand.Agrees
      (rest.map fun link => ⟨link.operand.span, link.operand.check scope⟩)
      (rest.map fun link => (link.operand.span, kind context link.operand)) := by
  rw [List.forall₂_map_left_iff, List.forall₂_map_right_iff, List.forall₂_same]
  exact fun link hlink => (h link hlink).operand

theorem agrees_kind (hscope : scope.Models context) (e : Expr) : e.Agrees scope context := by
  induction e with
  | int digits span =>
    rw [Agrees, check, kind]
    exact Typing.agrees_announce (agrees_pure rfl)
  | real value span =>
    rw [Agrees, check, kind]
    exact Typing.agrees_announce (agrees_pure rfl)
  | bool value span =>
    rw [Agrees, check, kind]
    exact Typing.agrees_announce (agrees_pure rfl)
  | ident name span =>
    rw [Agrees, check, kind]
    exact Typing.agrees_announce (agrees_ofExcept (hscope.lookup name span))
  | list items span ih =>
    rw [Agrees, check]
    refine Typing.agrees_announce ?_
    cases items with
    | nil =>
      rw [kind]
      exact agrees_pure rfl
    | cons first rest =>
      obtain ⟨hfirst, hrest⟩ := List.forall_mem_cons.1 ih
      rw [kind]
      refine agrees_bind hfirst fun t found _ ht => ?_
      subst ht
      exact agrees_bind (Typing.agrees_agree found (agrees_items hrest)) fun _ _ _ _ =>
        agrees_pure rfl
  | unary op operand span ih =>
    rw [Agrees, check]
    refine Typing.agrees_announce ?_
    cases op with
    | neg =>
      rw [kind]
      refine agrees_count_bind (agrees_bind ih fun t found _ ht => ?_)
      subst ht
      exact agrees_require_bind (by simp) (agrees_pure rfl)
    | not =>
      rw [kind]
      refine agrees_count_bind (agrees_bind ih fun t found _ ht => ?_)
      subst ht
      exact agrees_require_bind (by simp) (agrees_pure rfl)
  | additive first rest span ih ihs =>
    rw [Agrees, check, kind]
    exact Typing.agrees_announce (Typing.agrees_arithmetic ih.operand (agrees_links ihs))
  | multiplicative first rest span ih ihs =>
    rw [Agrees, check, kind]
    exact Typing.agrees_announce (Typing.agrees_arithmetic ih.operand (agrees_links ihs))
  | logical first rest span ih ihs =>
    rw [Agrees, check, kind]
    refine Typing.agrees_announce (agrees_count_bind ?_)
    exact agrees_bind (Typing.agrees_allBool (.cons ih.operand (agrees_links ihs))) fun _ _ _ _ =>
      agrees_pure rfl
  | single left span ih =>
    rw [Agrees, check, kind]
    exact Typing.agrees_announce ih
  | compare left op right span ihl ihr =>
    rw [Agrees, check, kind]
    refine Typing.agrees_announce ?_
    refine agrees_bind ihl fun leftTy leftKind _ hl => ?_
    refine agrees_bind ihr fun rightTy rightKind _ hr => ?_
    refine agrees_require_of_true ?_ (agrees_count_bind ?_)
    · rw [hl, hr]
      simp
    · exact agrees_require_bind (Typing.comparable_ofKind op hl hr) (agrees_pure rfl)
  | ternary test thenArm elseArm span ihc iht ihe =>
    rw [Agrees, check, kind]
    refine Typing.agrees_announce (agrees_count_bind ?_)
    refine agrees_bind (Typing.agrees_condition ihc.operand) fun _ _ _ _ => ?_
    refine agrees_bind iht fun thenTy thenKind _ ht => ?_
    refine agrees_bind ihe fun elseTy elseKind _ he => ?_
    subst ht he
    refine agrees_require_bind (by simp) (agrees_pure ?_)
    rw [Kind.isDefined_ty, if_pos rfl]
    rfl

theorem agrees_checkCondition (hscope : scope.Models context) (test : Expr) :
    (test.checkCondition scope).Agrees (fun _ _ => True)
      (Strict.condition (test.span, kind context test)) :=
  Typing.agrees_condition (test.agrees_kind hscope).operand

end Expr

/-! ### Statements -/

open Run

theorem Declaration.agrees_check {scope : Scope} {context : Strict.Context}
    (hscope : scope.Models context) {decl : Declaration} (hname : decl.typeName ∈ Kind.names) :
    (decl.check scope).1.Agrees (fun _ behind => (decl.check scope).2.Models behind)
      (Strict.declaration context decl) := by
  obtain ⟨declared, hkind, hty⟩ := Kind.exists_of_mem_names hname
  have hadmits := hscope.blocks decl.name
  unfold Strict.declaration
  rw [hkind]
  cases hblocks : scope.blocks decl.name with
  | true =>
    rw [hblocks] at hadmits
    rw [check_of_blocks hblocks]
    simp only [← hadmits]
    exact agrees_fail _
  | false =>
    rw [hblocks] at hadmits
    rw [check_of_not_blocks hblocks]
    simp only [← hadmits, Bool.not_false, Strict.demand_true_bind]
    have hextend : (decl.extend scope).Models (context.bind decl.name declared) :=
      hscope.bind hty rfl
    refine agrees_count_bind (agrees_emit_bind (by rintro _ _ ⟨⟩) ?_)
    cases decl.init with
    | none => exact agrees_pure hextend
    | some init =>
      refine agrees_bind (init.agrees_kind hextend) fun t found _ ht => ?_
      subst ht
      rw [hty]
      exact (agrees_require (found.fits_ty declared) _).finish fun _ _ _ => hextend

namespace Stmt

/-- All declarations in a statement, at any depth, name one of the four types. -/
def Known (s : Stmt) : Prop :=
  ∀ decl span, declare decl span ∈ s.nodes → decl.typeName ∈ Kind.names

/-- From matching scopes both checkers agree on the statement, and leave matching scopes behind. -/
def Agrees (s : Stmt) : Prop :=
  s.Known → ∀ (scope : Scope) (context : Strict.Context), scope.Models context →
    (s.check scope).1.Agrees (fun _ behind => (s.check scope).2.Models behind)
      (Strict.stmt context s)

theorem agrees_checkAll {stmts : List Stmt} (hknown : ∀ s ∈ stmts, s.Known)
    (hstmts : ∀ s ∈ stmts, s.Agrees) {scope : Scope} {context : Strict.Context}
    (hscope : scope.Models context) :
    (checkAll scope stmts).1.Agrees (fun _ behind => (checkAll scope stmts).2.Models behind)
      (Strict.stmts context stmts) := by
  induction stmts generalizing scope context with
  | nil => exact agrees_pure hscope
  | cons s rest ih =>
    obtain ⟨hs, hrest⟩ := List.forall_mem_cons.1 hstmts
    obtain ⟨hk, hkrest⟩ := List.forall_mem_cons.1 hknown
    rw [checkAll_cons_run, Strict.stmts]
    refine agrees_bind (hs hk scope context hscope) fun u next hok hnext => ?_
    rw [checkAll_cons_of_ok hok]
    exact ih hkrest hrest hnext

theorem Known.of_mem_blocks {s x : Stmt} {b : Block Stmt} (h : s.Known) (hb : b ∈ s.blocks)
    (hx : x ∈ b.stmts) : x.Known :=
  fun decl span hdecl => h decl span (mem_nodes_of_mem_blocks hb hx hdecl)

/-- The run of a block of a statement. -/
theorem agrees_enclose {s : Stmt} {b : Block Stmt} (hknown : s.Known) (hb : b ∈ s.blocks)
    (hstmts : ∀ x ∈ b.stmts, x.Agrees) {inner : Scope} {context : Strict.Context}
    (hscope : inner.Models context) :
    (enclose inner (checkAll inner b.stmts)).1.Agrees
      (fun _ behind => (checkAll inner b.stmts).2.Models behind)
      (Strict.stmts context b.stmts) := by
  have hall := agrees_checkAll (fun x hx => hknown.of_mem_blocks hb hx) hstmts hscope
  rw [← bind_pure (Strict.stmts context b.stmts)]
  refine agrees_emit_bind (by rintro _ _ ⟨⟩) (agrees_bind hall fun _ behind _ hbehind => ?_)
  rw [← bind_pure (emit _)]
  exact agrees_emit_bind (by rintro _ _ ⟨⟩) (agrees_pure hbehind)

theorem agrees_check (s : Stmt) : s.Agrees := by
  induction s with
  | declare decl span =>
    intro hknown scope context h
    exact decl.agrees_check h (hknown decl span (mem_nodes_self _))
  | assign target targetSpan value span =>
    intro hknown scope context h
    refine agrees_bind (agrees_ofExcept (h.lookup target targetSpan)) fun t declared _ ht => ?_
    refine agrees_bind (value.agrees_kind h) fun t' found _ ht' => ?_
    subst ht ht'
    exact (agrees_require (found.fits_ty declared) _).finish fun _ _ _ => h
  | ifThen test body span ih =>
    intro hknown scope context h
    refine agrees_count_bind (agrees_bind (test.agrees_checkCondition h) fun _ _ _ _ => ?_)
    have hbody := agrees_enclose hknown List.mem_cons_self ih h.enterBody
    exact hbody.finish fun _ _ _ => h
  | ifElse test body other span ih ihOther =>
    intro hknown scope context h
    refine agrees_count_bind (agrees_bind (test.agrees_checkCondition h) fun _ _ _ _ => ?_)
    have hbody := agrees_enclose hknown List.mem_cons_self ih h.enterBody
    have hother := agrees_enclose hknown (List.mem_cons_of_mem _ List.mem_cons_self) ihOther
      h.enterBody
    exact agrees_bind hbody fun _ _ _ _ => hother.finish fun _ _ _ => h
  | whileDo test body span ih =>
    intro hknown scope context h
    refine agrees_count_bind (agrees_bind (test.agrees_checkCondition h) fun _ _ _ _ => ?_)
    have hbody := agrees_enclose hknown List.mem_cons_self ih h.enterBody
    exact hbody.finish fun _ _ _ => h
  | doWhile body test span ih =>
    intro hknown scope context h
    have hbody := agrees_enclose hknown List.mem_cons_self ih h.enterBody
    refine agrees_count_bind (agrees_bind hbody fun _ inner _ hinner => ?_)
    exact (test.agrees_checkCondition hinner).finish fun _ _ _ => h
  | block body span ih =>
    intro hknown scope context h
    have hbody := agrees_enclose hknown List.mem_cons_self ih h.enterBlock
    exact hbody.finish fun _ _ _ => h
  | expr value span =>
    intro hknown scope context h
    exact agrees_bind (value.agrees_kind h) fun _ _ _ _ => agrees_pure h

end Stmt

/-! ### Programs -/

/-- **Leniency is about unknown type names.**  If every declaration of a program, at any depth,
names one of the four types, then the program is accepted with the same metrics or refused with the
same violation as by the strict checker, and no expression is found to be of unknown type on the
way. -/
theorem analyze_eq_strict {p : Program} (h : ∀ decl span, Stmt.declare decl span ∈ p.stmtNodes →
      decl.typeName ∈ ["int", "bool", "float", "list"]) :
    p.analyze = Strict.analyze p ∧ ∀ e t, .typed e t ∈ p.check.events → t ≠ .undefined := by
  have hknown : ∀ s ∈ p.stmts, s.Known := fun s hs decl span hdecl =>
    h decl span (List.mem_flatMap.2 ⟨s, hs, hdecl⟩)
  have hagrees := Stmt.agrees_checkAll hknown (fun s _ => s.agrees_check) .empty
  refine ⟨?_, fun e t ht => ?_⟩
  · have halike := hagrees.outcome
    rw [Program.analyze_eq, Strict.analyze]
    generalize hrun : (Stmt.checkAll .empty p.stmts).1.outcome = outcome,
      Strict.stmts .empty p.stmts = result at halike
    cases halike with
    | error e => rfl
    | ok _ =>
      rw [Stmt.tally_checkAll hrun]
      rfl
  · rw [p.check_eq] at ht
    obtain ht | ht := List.mem_append.1 ht
    · exact hagrees.known e t ht
    · obtain ⟨m, -, hm⟩ := List.mem_map.1 ht
      cases hm

/-- `int i = 2; do { bool b = i < 3; } while (b ? i : b);`, a choice between values of different
types, one of them declared in the body. -/
def mixedChoice : Program :=
  ⟨[.declare ⟨"int", "i", ⟨4, 5⟩, some (.int "2" ⟨8, 9⟩), ⟨0, 10⟩⟩ ⟨0, 10⟩,
    .doWhile
      ⟨[.declare ⟨"bool", "b", ⟨21, 22⟩, some (.compare (.ident "i" ⟨25, 26⟩)
          (some ⟨.less, .int "3" ⟨29, 30⟩⟩) ⟨25, 30⟩), ⟨16, 31⟩⟩ ⟨16, 31⟩], ⟨14, 33⟩⟩
      (.ternary (.ident "b" ⟨41, 42⟩) (.ident "i" ⟨45, 46⟩) (.ident "b" ⟨49, 50⟩) ⟨41, 50⟩)
      ⟨11, 52⟩], ⟨0, 52⟩⟩

theorem analyze_eq_strict_mixedChoice :
    (∀ decl span, Stmt.declare decl span ∈ mixedChoice.stmtNodes →
      decl.typeName ∈ ["int", "bool", "float", "list"]) ∧
    mixedChoice.analyze = .error (.expression ⟨41, 50⟩) ∧
    mixedChoice.analyze = Strict.analyze mixedChoice := by
  have hnames : ∀ decl span, Stmt.declare decl span ∈ mixedChoice.stmtNodes →
      decl.typeName ∈ ["int", "bool", "float", "list"] := by
    intro decl span hdecl
    simp only [Program.stmtNodes, mixedChoice, Stmt.nodes, Stmt.nested, Stmt.nodesAll,
      List.flatMap_cons, List.flatMap_nil, List.append_nil, List.cons_append, List.nil_append,
      List.mem_cons, List.not_mem_nil, or_false, Stmt.declare.injEq, reduceCtorEq,
      false_or] at hdecl
    obtain ⟨rfl, -⟩ | ⟨rfl, -⟩ := hdecl
    · decide
    · decide
  exact ⟨hnames, by decide +kernel, (analyze_eq_strict hnames).1⟩

end StaticCheck
