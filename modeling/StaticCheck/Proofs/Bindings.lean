import Mathlib.Data.List.Infix
import StaticCheck.Proofs.Statements

/-! # What statements bind

A list of statements is checked up to its end or its first failure, and the scope is known in both
cases.  It differs from the scope before the list by the declarations that stand directly in the
list and took effect, and by nothing else (`checkAll_binds`).  A declaration takes effect as soon as
its name is not refused, whatever becomes of its initial value; what stands in a block takes effect
on a copy of the scope. -/

namespace StaticCheck

namespace Scope

variable {scope : Scope}

/-- The scope with some names declared in order, all of them at one depth. -/
def declareAll (scope : Scope) (depth : Nat) (decls : List Declaration) : Scope :=
  decls.foldl (fun after decl => after.insert (decl.binding depth)) scope

theorem declareAll_cons (depth : Nat) (decl : Declaration) (decls : List Declaration) :
    scope.declareAll depth (decl :: decls) =
      (scope.insert (decl.binding depth)).declareAll depth decls := rfl

theorem declareAll_append (depth : Nat) (decls more : List Declaration) :
    scope.declareAll depth (decls ++ more) =
      (scope.declareAll depth decls).declareAll depth more :=
  List.foldl_append

theorem depth_declareAll (depth : Nat) (decls : List Declaration) :
    (scope.declareAll depth decls).depth = scope.depth := by
  induction decls generalizing scope with
  | nil => rfl
  | cons decl decls ih => exact ih

theorem shadowing_declareAll (depth : Nat) (decls : List Declaration) :
    (scope.declareAll depth decls).shadowing = scope.shadowing := by
  induction decls generalizing scope with
  | nil => rfl
  | cons decl decls ih => exact ih

/-- A name is bound by its last declaration, or as before. -/
theorem get?_declareAll (depth : Nat) (decls : List Declaration) (name : String) :
    (scope.declareAll depth decls).get? name =
      ((decls.reverse.find? fun decl => decl.name == name).map fun decl => decl.binding depth).or
        (scope.get? name) := by
  induction decls generalizing scope with
  | nil => rfl
  | cons decl decls ih =>
    rw [declareAll_cons, ih, List.reverse_cons, List.find?_append]
    cases decls.reverse.find? fun decl => decl.name == name with
    | some last => rfl
    | none =>
      by_cases hname : decl.name = name
      · subst hname
        have bound := scope.get?_insert_self (decl.binding depth)
        change (scope.insert (decl.binding depth)).get? decl.name = _ at bound
        simp [bound]
      · have kept := scope.get?_insert_of_ne (b := decl.binding depth) (Ne.symm hname)
        simp [kept, hname]

theorem isOk_declare (name : String) (ty : Ty) (span : Span) :
    (scope.declare name ty span).isOk = !scope.blocks name := by
  unfold declare
  cases scope.blocks name <;> rfl

end Scope

namespace Stmt

/-! ### Declarations that take effect -/

/-- The declaration that takes effect at the statement `s` of a list, behind the statements
`before`: the check of the list comes to `s`, and the name is not refused there. -/
def effective? (scope : Scope) (before : List Stmt) (s : Stmt) : Option Declaration :=
  s.declaration?.filter fun decl =>
    let (run, reached) := checkAll scope before
    run.isOk && (reached.declare decl.name (.ofName decl.typeName) decl.nameSpan).isOk

/-- The declarations directly in a list of statements that take effect, in order. -/
def effective (scope : Scope) (stmts : List Stmt) : List Declaration :=
  (stmts.inits.zip stmts).filterMap fun place => effective? scope place.1 place.2

variable {scope : Scope} {s : Stmt} {rest : List Stmt}

theorem effective?_nil (scope : Scope) (s : Stmt) :
    effective? scope [] s = s.declaration?.filter fun decl => !scope.blocks decl.name := by
  unfold effective?
  simp only [checkAll, Scope.isOk_declare]
  rfl

/-- A check that gets past the first statement goes on in the scope behind it. -/
theorem effective?_cons_of_ok (h : (s.check scope).1.outcome = .ok ()) (before : List Stmt)
    (x : Stmt) : effective? scope (s :: before) x = effective? (s.check scope).2 before x := by
  have hrun : (checkAll scope (s :: before)).1.isOk =
      (checkAll (s.check scope).2 before).1.isOk := by
    rw [Bool.eq_iff_iff, Run.isOk_iff, Run.isOk_iff, checkAll_cons_eq_ok_iff]
    exact and_iff_right h
  unfold effective?
  simp only [hrun]
  rw [checkAll_cons_of_ok h]

/-- Behind a statement that fails nothing takes effect. -/
theorem effective?_cons_of_error {e : SemanticError} (h : (s.check scope).1.outcome = .error e)
    (before : List Stmt) (x : Stmt) : effective? scope (s :: before) x = none := by
  have hrun : (checkAll scope (s :: before)).1.isOk = false := by
    rw [checkAll_cons_of_error h, Run.isOk, h]
    rfl
  simp [effective?, hrun]

theorem effective_cons : effective scope (s :: rest) = (effective? scope [] s).toList ++
    (rest.inits.zip rest).filterMap fun place => effective? scope (s :: place.1) place.2 := by
  rw [effective, List.inits_cons, List.zip_cons_cons, List.zip_map_left, List.filterMap_cons,
    List.filterMap_map]
  cases effective? scope [] s <;> rfl

theorem effective_cons_of_ok (h : (s.check scope).1.outcome = .ok ()) :
    effective scope (s :: rest) =
      (effective? scope [] s).toList ++ effective (s.check scope).2 rest := by
  simp only [effective_cons, effective?_cons_of_ok h]
  rfl

theorem effective_cons_of_error {e : SemanticError} (h : (s.check scope).1.outcome = .error e) :
    effective scope (s :: rest) = (effective? scope [] s).toList := by
  simp only [effective_cons, effective?_cons_of_error h, List.filterMap_none, List.append_nil]

/-! ### One statement -/

/-- A statement that is no declaration leaves the scope as it is, whether it checks or fails. -/
theorem check_scope_of_not_declaration (h : s.declaration? = none) : (s.check scope).2 = scope := by
  cases s with
  | declare decl span => cases h
  | ifElse test body other span => cases other <;> rfl
  | assign | whileDo | doWhile | block | expr => rfl

/-- A statement binds the name of the declaration that takes effect at it, if there is one. -/
theorem check_scope_eq_declareAll (scope : Scope) (s : Stmt) :
    (s.check scope).2 = scope.declareAll scope.depth (effective? scope [] s).toList := by
  rw [effective?_nil]
  cases s with
  | declare decl span =>
    rw [check_declare, declaration?]
    cases hblocks : scope.blocks decl.name with
    | true =>
      simp only [Declaration.check_of_blocks hblocks, Option.filter, hblocks]
      rfl
    | false =>
      simp only [Declaration.check_of_not_blocks hblocks, Option.filter, hblocks]
      rfl
  | ifElse test body other span => cases other <;> rfl
  | assign | whileDo | doWhile | block | expr => rfl

/-! ### Lists of statements -/

/-- The scope behind a list is the scope before it with the declarations that took effect. -/
theorem checkAll_scope_eq_declareAll (scope : Scope) (stmts : List Stmt) :
    (checkAll scope stmts).2 = scope.declareAll scope.depth (effective scope stmts) := by
  induction stmts generalizing scope with
  | nil => rfl
  | cons s rest ih =>
    have hs := check_scope_eq_declareAll scope s
    cases houtcome : (s.check scope).1.outcome with
    | error e => rw [checkAll_cons_of_error houtcome, effective_cons_of_error houtcome, hs]
    | ok u =>
      have hdepth : (s.check scope).2.depth = scope.depth := by
        rw [hs, Scope.depth_declareAll]
      rw [checkAll_cons_of_ok houtcome, effective_cons_of_ok houtcome, ih, hdepth,
        Scope.declareAll_append, ← hs]

end Stmt

/-- **Only direct declarations change a scope.**  Statements are checked in order from any scope, up
to the end of the list or the first failure.  The scope behind them has the depth and the leave to
shadow that it had before, and its bindings are updated in order by the declarations that stand
directly in the list and took effect, each at the depth of the scope: a name is bound by the last of
them that declares it, and as before if none does.  All other statements, with all that stands in
their blocks, leave the scope untouched wherever they fail. -/
theorem checkAll_binds (scope : Scope) (stmts : List Stmt) :
    let after := (Stmt.checkAll scope stmts).2
    let decls := Stmt.effective scope stmts
    after.depth = scope.depth ∧ after.shadowing = scope.shadowing ∧
      after.bindings = (scope.declareAll scope.depth decls).bindings ∧
      (∀ name, after.get? name =
        ((decls.reverse.find? fun decl => decl.name == name).map fun decl =>
          ⟨decl.name, .ofName decl.typeName, decl.nameSpan, scope.depth⟩).or (scope.get? name)) ∧
      ∀ s ∈ stmts, s.declaration? = none → ∀ outer : Scope, (s.check outer).2 = outer := by
  intro after decls
  have hafter : after = scope.declareAll scope.depth decls :=
    Stmt.checkAll_scope_eq_declareAll scope stmts
  rw [hafter]
  refine ⟨Scope.depth_declareAll _ _, Scope.shadowing_declareAll _ _, rfl, fun name => ?_, ?_⟩
  · exact Scope.get?_declareAll _ _ name
  · exact fun s _ hs outer => Stmt.check_scope_of_not_declaration hs

/-- `{ int b; } int a = c;` fails at the initial value: `a` is bound all the same, `b` is not. -/
theorem checkAll_binds_unset :
    let inner : Stmt :=
      .block ⟨[.declare ⟨"int", "b", ⟨6, 7⟩, none, ⟨2, 8⟩⟩ ⟨2, 8⟩], ⟨0, 10⟩⟩ ⟨0, 10⟩
    let unset : Stmt :=
      .declare ⟨"int", "a", ⟨15, 16⟩, some (.ident "c" ⟨19, 20⟩), ⟨11, 21⟩⟩ ⟨11, 21⟩
    (Stmt.checkAll .empty [inner, unset]).1.outcome = .error (.undeclared "c" ⟨19, 20⟩) ∧
      (Stmt.checkAll .empty [inner, unset]).2.bindings = [⟨"a", .int, ⟨15, 16⟩, 0⟩] ∧
      inner.declaration? = none ∧ (inner.check .empty).2 = .empty := by
  intro inner unset
  obtain ⟨-, -, hbindings, -, hsilent⟩ := checkAll_binds .empty [inner, unset]
  refine ⟨by decide +kernel, ?_, rfl, hsilent inner List.mem_cons_self rfl .empty⟩
  rw [hbindings]
  decide +kernel

end StaticCheck
