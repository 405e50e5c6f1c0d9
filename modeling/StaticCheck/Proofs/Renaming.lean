import Mathlib.Logic.Equiv.Basic
import StaticCheck.Proofs.Mirroring

/-! # Renamed programs

A renaming of a program changes the names that are declared, assigned to and used, and nothing else.
If it keeps different names different, the scopes on the way through the renamed program are those
of the program with renamed names (`Scope.Mirrors`), so every statement is checked alike
(`Stmt.mirrors_check`) and the whole program has the same metrics or the same first violation, up
to the name in it (`analyze_rename`). -/

namespace StaticCheck

open Run

/-! ### Renamed trees -/

/-- Renames the declared name and the identifiers of the initial value.  The name of the type
stays. -/
def Declaration.rename (f : String → String) (decl : Declaration) : Declaration :=
  { decl with name := f decl.name, init := decl.init.map (Expr.rename f) }

namespace Stmt

mutual

/-- Renames the declared names, the targets of assignments and the identifiers of a statement. -/
def rename (f : String → String) : Stmt → Stmt
  | declare decl span => declare (decl.rename f) span
  | assign target targetSpan value span => assign (f target) targetSpan (value.rename f) span
  | ifElse test ⟨thenStmts, thenSpan⟩ none span =>
    ifElse (test.rename f) ⟨renameAll f thenStmts, thenSpan⟩ none span
  | ifElse test ⟨thenStmts, thenSpan⟩ (some ⟨elseStmts, elseSpan⟩) span =>
    ifElse (test.rename f) ⟨renameAll f thenStmts, thenSpan⟩
      (some ⟨renameAll f elseStmts, elseSpan⟩) span
  | whileDo test ⟨stmts, bodySpan⟩ span =>
    whileDo (test.rename f) ⟨renameAll f stmts, bodySpan⟩ span
  | doWhile ⟨stmts, bodySpan⟩ test span =>
    doWhile ⟨renameAll f stmts, bodySpan⟩ (test.rename f) span
  | block ⟨stmts, bodySpan⟩ span => block ⟨renameAll f stmts, bodySpan⟩ span
  | expr value span => expr (value.rename f) span
termination_by structural s => s

def renameAll (f : String → String) : List Stmt → List Stmt
  | [] => []
  | s :: rest => s.rename f :: renameAll f rest
termination_by structural rest => rest

end

end Stmt

def Program.rename (f : String → String) (p : Program) : Program :=
  ⟨Stmt.renameAll f p.stmts, p.span⟩

/-! ### Scopes -/

def Binding.rename (f : String → String) (b : Binding) : Binding := { b with name := f b.name }

namespace Scope

variable {f : String → String} {scope scope' : Scope}

/-- The second scope shows under the new names what the first one shows. -/
structure Mirrors (f : String → String) (scope scope' : Scope) : Prop where
  depth : scope'.depth = scope.depth
  shadowing : scope'.shadowing = scope.shadowing
  get? : ∀ name, scope'.get? (f name) = (scope.get? name).map (Binding.rename f)

namespace Mirrors

theorem empty : Mirrors f .empty .empty := ⟨rfl, rfl, fun _ => rfl⟩

theorem enterBody (h : scope.Mirrors f scope') : scope.enterBody.Mirrors f scope'.enterBody :=
  ⟨congrArg (· + 1) h.depth, rfl, h.get?⟩

theorem enterBlock (h : scope.Mirrors f scope') : scope.enterBlock.Mirrors f scope'.enterBlock :=
  ⟨congrArg (· + 1) h.depth, rfl, h.get?⟩

theorem lookup (h : scope.Mirrors f scope') (name : String) (span : Span) :
    scope'.lookup (f name) span =
      (scope.lookup name span).mapError (SemanticError.rename f) := by
  unfold Scope.lookup
  rw [h.get?]
  cases scope.get? name with
  | none => rfl
  | some b => rfl

theorem answeredAlike (h : scope.Mirrors f scope') (e : Expr) :
    e.AnsweredAlike f scope scope' := fun name span _ => h.lookup name span

theorem blocks (h : scope.Mirrors f scope') (name : String) :
    scope'.blocks (f name) = scope.blocks name := by
  unfold Scope.blocks
  rw [h.get?, h.depth, h.shadowing]
  cases scope.get? name with
  | none => rfl
  | some b => rfl

/-- Only here it matters that different names stay different: a declaration hides no other name. -/
theorem insert (hf : Function.Injective f) (h : scope.Mirrors f scope') (b : Binding) :
    (scope.insert b).Mirrors f (scope'.insert (b.rename f)) where
  depth := h.depth
  shadowing := h.shadowing
  get? name := by
    by_cases hname : name = b.name
    · subst hname
      have hself : (scope'.insert (b.rename f)).get? (f b.name) = some (b.rename f) :=
        scope'.get?_insert_self (b.rename f)
      rw [hself, get?_insert_self, Option.map_some]
    · have hne : f name ≠ (b.rename f).name := fun heq => hname (hf heq)
      rw [get?_insert_of_ne scope' hne, get?_insert_of_ne scope hname, h.get?]

end Mirrors

end Scope

/-! ### Trees side by side

A statement depends on the expressions in it only through their checks and their spans, so
statements with mirroring parts mirror each other, whatever the parts are. -/

/-- The two expressions stand at one place and are checked alike from mirroring scopes. -/
structure Expr.Mirrors (f : String → String) (e e' : Expr) : Prop where
  span : e'.span = e.span
  check {scope scope' : Scope} (h : scope.Mirrors f scope') :
    Run.Mirrors f (e.check scope) (e'.check scope')

theorem Expr.mirrors_rename (f : String → String) (e : Expr) : e.Mirrors f (e.rename f) where
  span := e.span_rename
  check h := Expr.mirrors_check (h.answeredAlike e)

theorem Expr.Mirrors.checkCondition {f : String → String} {e e' : Expr} (he : e.Mirrors f e')
    {scope scope' : Scope} (h : scope.Mirrors f scope') :
    Run.Mirrors f (e.checkCondition scope) (e'.checkCondition scope') := by
  have hoperand : Operand.Mirrors f ⟨e.span, e.check scope⟩ ⟨e'.span, e'.check scope'⟩ :=
    ⟨he.span, he.check h⟩
  exact Typing.mirrors_condition hoperand

namespace Declaration

variable {f : String → String} {decl decl' : Declaration} {scope scope' : Scope}

/-- The second declaration is the first one under the new name, with a mirroring initial value. -/
structure Mirrors (f : String → String) (decl decl' : Declaration) : Prop where
  typeName : decl'.typeName = decl.typeName
  name : decl'.name = f decl.name
  nameSpan : decl'.nameSpan = decl.nameSpan
  init : Option.Rel (Expr.Mirrors f) decl.init decl'.init
  span : decl'.span = decl.span

theorem mirrors_rename (f : String → String) (decl : Declaration) :
    decl.Mirrors f (decl.rename f) := by
  refine ⟨rfl, rfl, rfl, ?_, rfl⟩
  unfold rename
  cases decl.init with
  | none => exact .none
  | some init => exact .some (init.mirrors_rename f)

theorem Mirrors.extend (hf : Function.Injective f) (hdecl : decl.Mirrors f decl')
    (h : scope.Mirrors f scope') : (decl.extend scope).Mirrors f (decl'.extend scope') := by
  have hbinding : decl'.binding scope'.depth = (decl.binding scope.depth).rename f := by
    unfold binding Binding.rename
    rw [hdecl.name, hdecl.typeName, hdecl.nameSpan, h.depth]
  unfold Declaration.extend
  rw [hbinding]
  exact h.insert hf (decl.binding scope.depth)

theorem Mirrors.check (hf : Function.Injective f) (hdecl : decl.Mirrors f decl')
    (h : scope.Mirrors f scope') :
    Run.Mirrors f (decl.check scope).1 (decl'.check scope').1 ∧
      (decl.check scope).2.Mirrors f (decl'.check scope').2 := by
  have hblocks : scope'.blocks decl'.name = scope.blocks decl.name := by
    rw [hdecl.name]
    exact h.blocks decl.name
  cases hcase : scope.blocks decl.name with
  | true =>
    rw [check_of_blocks hcase, check_of_blocks (hblocks.trans hcase), hdecl.name, hdecl.nameSpan]
    exact ⟨mirrors_fail _, h⟩
  | false =>
    rw [check_of_not_blocks hcase, check_of_not_blocks (hblocks.trans hcase)]
    have hextend := hdecl.extend hf h
    refine ⟨?_, hextend⟩
    refine mirrors_bind (mirrors_count _) fun _ => mirrors_bind (mirrors_emit _ _) fun _ => ?_
    rw [hdecl.name, hdecl.typeName, hdecl.span]
    have hinit := hdecl.init
    generalize decl.init = init at hinit
    generalize decl'.init = init' at hinit
    cases hinit with
    | none => exact mirrors_pure ()
    | some hvalue =>
      refine mirrors_bind (hvalue.check hextend) fun found => ?_
      exact mirrors_require _ (.assignment decl.name decl.span)

end Declaration

namespace Stmt

variable {f : String → String} {scope scope' : Scope}

/-- From mirroring scopes, the two statements are checked alike and leave mirroring scopes
behind. -/
def Mirrors (f : String → String) (s s' : Stmt) : Prop :=
  ∀ scope scope' : Scope, scope.Mirrors f scope' →
    Run.Mirrors f (s.check scope).1 (s'.check scope').1 ∧
      (s.check scope).2.Mirrors f (s'.check scope').2

theorem mirrors_checkAll_of_forall₂ {stmts stmts' : List Stmt}
    (hstmts : List.Forall₂ (Mirrors f) stmts stmts') (h : scope.Mirrors f scope') :
    Run.Mirrors f (checkAll scope stmts).1 (checkAll scope' stmts').1 ∧
      (checkAll scope stmts).2.Mirrors f (checkAll scope' stmts').2 := by
  induction hstmts generalizing scope scope' with
  | nil => exact ⟨mirrors_pure (), h⟩
  | cons hs _ ih =>
    obtain ⟨hrun, hscope⟩ := hs scope scope' h
    rw [checkAll, checkAll]
    simp only [hrun.isOk_eq]
    split
    · obtain ⟨hmore, hlast⟩ := ih hscope
      exact ⟨mirrors_bind hrun fun _ => hmore, hlast⟩
    · exact ⟨hrun, hscope⟩

/-- The run of a block, with the records at its start and its end. -/
theorem mirrors_enclose {inner inner' : Scope} {stmts stmts' : List Stmt}
    (hstmts : List.Forall₂ (Mirrors f) stmts stmts') (h : scope.Mirrors f scope') :
    Run.Mirrors f (enclose inner (checkAll scope stmts)).1
      (enclose inner' (checkAll scope' stmts')).1 := by
  refine mirrors_bind (mirrors_emit _ _) fun _ => ?_
  exact mirrors_bind (mirrors_checkAll_of_forall₂ hstmts h).1 fun _ => mirrors_emit _ _

section parts

variable {test test' value value' : Expr} {body body' other other' : Block Stmt} {span span' : Span}

theorem mirrors_declare (hf : Function.Injective f) {decl decl' : Declaration}
    (hdecl : decl.Mirrors f decl') : Mirrors f (declare decl span) (declare decl' span') :=
  fun _ _ h => hdecl.check hf h

theorem mirrors_assign (target : String) (targetSpan : Span) (hvalue : value.Mirrors f value') :
    Mirrors f (assign target targetSpan value span)
      (assign (f target) targetSpan value' span) := by
  intro scope scope' h
  refine ⟨?_, h⟩
  refine mirrors_bind (mirrors_ofExcept (h.lookup target targetSpan)) fun declared => ?_
  refine mirrors_bind (hvalue.check h) fun found => ?_
  exact mirrors_require _ (.assignment target span)

theorem mirrors_ifThen (htest : test.Mirrors f test')
    (hbody : List.Forall₂ (Mirrors f) body.stmts body'.stmts) :
    Mirrors f (ifElse test body none span) (ifElse test' body' none span') := by
  intro scope scope' h
  refine ⟨?_, h⟩
  refine mirrors_bind (mirrors_count _) fun _ => ?_
  refine mirrors_bind (htest.checkCondition h) fun _ => ?_
  exact mirrors_enclose hbody h.enterBody

theorem mirrors_ifElse (htest : test.Mirrors f test')
    (hbody : List.Forall₂ (Mirrors f) body.stmts body'.stmts)
    (hother : List.Forall₂ (Mirrors f) other.stmts other'.stmts) :
    Mirrors f (ifElse test body (some other) span) (ifElse test' body' (some other') span') := by
  intro scope scope' h
  refine ⟨?_, h⟩
  refine mirrors_bind (mirrors_count _) fun _ => ?_
  refine mirrors_bind (htest.checkCondition h) fun _ => ?_
  refine mirrors_bind (mirrors_enclose hbody h.enterBody) fun _ => ?_
  exact mirrors_enclose hother h.enterBody

theorem mirrors_whileDo (htest : test.Mirrors f test')
    (hbody : List.Forall₂ (Mirrors f) body.stmts body'.stmts) :
    Mirrors f (whileDo test body span) (whileDo test' body' span') := by
  intro scope scope' h
  refine ⟨?_, h⟩
  refine mirrors_bind (mirrors_count _) fun _ => ?_
  refine mirrors_bind (htest.checkCondition h) fun _ => ?_
  exact mirrors_enclose hbody h.enterBody

theorem mirrors_doWhile (hbody : List.Forall₂ (Mirrors f) body.stmts body'.stmts)
    (htest : test.Mirrors f test') :
    Mirrors f (doWhile body test span) (doWhile body' test' span') := by
  intro scope scope' h
  refine ⟨?_, h⟩
  refine mirrors_bind (mirrors_count _) fun _ => ?_
  refine mirrors_bind (mirrors_enclose hbody h.enterBody) fun _ => ?_
  -- the condition sees what the body declared
  exact htest.checkCondition (mirrors_checkAll_of_forall₂ hbody h.enterBody).2

theorem mirrors_block (hbody : List.Forall₂ (Mirrors f) body.stmts body'.stmts) :
    Mirrors f (block body span) (block body' span') :=
  fun _ _ h => ⟨mirrors_enclose hbody h.enterBlock, h⟩

theorem mirrors_expr (hvalue : value.Mirrors f value') :
    Mirrors f (expr value span) (expr value' span') :=
  fun _ _ h => ⟨mirrors_bind (hvalue.check h) fun _ => mirrors_pure (), h⟩

end parts

/-! ### Renamed statements -/

theorem forall₂_renameAll {stmts : List Stmt} (h : ∀ s ∈ stmts, s.Mirrors f (s.rename f)) :
    List.Forall₂ (Mirrors f) stmts (renameAll f stmts) := by
  induction stmts with
  | nil => exact .nil
  | cons s rest ih =>
    obtain ⟨hs, hrest⟩ := List.forall_mem_cons.1 h
    exact .cons hs (ih hrest)

theorem mirrors_checkAll {stmts : List Stmt} (hstmts : ∀ s ∈ stmts, s.Mirrors f (s.rename f))
    (h : scope.Mirrors f scope') :
    Run.Mirrors f (checkAll scope stmts).1 (checkAll scope' (renameAll f stmts)).1 ∧
      (checkAll scope stmts).2.Mirrors f (checkAll scope' (renameAll f stmts)).2 :=
  mirrors_checkAll_of_forall₂ (forall₂_renameAll hstmts) h

theorem mirrors_checkCondition (h : scope.Mirrors f scope') (test : Expr) :
    Run.Mirrors f (test.checkCondition scope) ((test.rename f).checkCondition scope') :=
  (test.mirrors_rename f).checkCondition h

/-- Every statement is checked like the renamed one. -/
theorem mirrors_check (hf : Function.Injective f) (s : Stmt) : s.Mirrors f (s.rename f) := by
  induction s with
  | declare decl span => exact mirrors_declare hf (decl.mirrors_rename f)
  | assign target targetSpan value span =>
    exact mirrors_assign target targetSpan (value.mirrors_rename f)
  | ifThen test body span ih => exact mirrors_ifThen (test.mirrors_rename f) (forall₂_renameAll ih)
  | ifElse test body other span ih ihOther =>
    exact mirrors_ifElse (test.mirrors_rename f) (forall₂_renameAll ih) (forall₂_renameAll ihOther)
  | whileDo test body span ih =>
    exact mirrors_whileDo (test.mirrors_rename f) (forall₂_renameAll ih)
  | doWhile body test span ih =>
    exact mirrors_doWhile (forall₂_renameAll ih) (test.mirrors_rename f)
  | block body span ih => exact mirrors_block (forall₂_renameAll ih)
  | expr value span => exact mirrors_expr (value.mirrors_rename f)

end Stmt

/-! ### Programs -/

/-- **Names are only names.**  Under a renaming that keeps different names different, a program has
the same metrics, or the same first violation at the same place, with its name renamed. -/
theorem analyze_rename {f : String → String} (hf : Function.Injective f) (p : Program) :
    (p.rename f).analyze = p.analyze.mapError (SemanticError.rename f) := by
  have hrun : Run.Mirrors f (Stmt.checkAll .empty p.stmts).1
      (Stmt.checkAll .empty (p.rename f).stmts).1 :=
    (Stmt.mirrors_checkAll (fun s _ => s.mirrors_check hf) .empty).1
  have hcheck : Run.Mirrors f p.check (p.rename f).check := by
    refine mirrors_bind hrun fun _ => mirrors_bind (mirrors_emit _ _) fun _ => ?_
    rw [hrun.tally]
    exact mirrors_pure _
  exact hcheck.outcome

/-- The names of `int a = 1; { bool b = a; }` are exchanged. -/
theorem analyze_rename_swap : Function.Injective (Equiv.swap "a" "b") ∧
    (Program.rename (Equiv.swap "a" "b")
      ⟨[.declare ⟨"int", "a", ⟨4, 5⟩, some (.int "1" ⟨8, 9⟩), ⟨0, 10⟩⟩ ⟨0, 10⟩,
        .block ⟨[.declare ⟨"bool", "b", ⟨18, 19⟩, some (.ident "a" ⟨22, 23⟩), ⟨13, 24⟩⟩ ⟨13, 24⟩],
          ⟨11, 26⟩⟩ ⟨11, 26⟩], ⟨0, 26⟩⟩).analyze = .error (.assignment "a" ⟨13, 24⟩) := by
  have hswap : Function.Injective (Equiv.swap "a" "b") := Equiv.injective _
  refine ⟨hswap, ?_⟩
  rw [analyze_rename hswap]
  decide +kernel

end StaticCheck
