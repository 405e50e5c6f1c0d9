import StaticCheck.Proofs.Statements

/-! # Positions in a program

A position is given by the statement lists around it, from the inside out, and by the statements
that stand before it in each of them.  A name at a position refers to the last declaration before
it in the innermost list that has one (`Position.resolve`); the checker instead carries a table of
names along (`Position.scope`).  `Position.Tracks` says that the two agree about types.  It holds
at the start of a program and is kept by every statement that checks and by entering a block. -/

namespace StaticCheck

/-- A position between statements. -/
inductive Position where
  /-- In the list that makes up the program. -/
  | program (before : List Stmt)
  /-- In the body of a branch or a loop. -/
  | body (outer : Position) (before : List Stmt)
  /-- In a bare block. -/
  | block (outer : Position) (before : List Stmt)

/-- The last declaration of a name that is a member of a list of statements. -/
def lastDeclaration? (name : String) (stmts : List Stmt) : Option Declaration :=
  ((stmts.filterMap Stmt.declaration?).filter fun decl => decl.name == name).getLast?

namespace Position

/-- The position behind one more statement of the innermost list. -/
def behind (s : Stmt) : Position → Position
  | program before => program (before ++ [s])
  | body outer before => body outer (before ++ [s])
  | block outer before => block outer (before ++ [s])

/-- The declaration that a name refers to. -/
def resolve (name : String) : Position → Option Declaration
  | program before => lastDeclaration? name before
  | body outer before => (lastDeclaration? name before).or (outer.resolve name)
  | block outer before => (lastDeclaration? name before).or (outer.resolve name)

/-- The scope behind statements that are checked one after the other. -/
def scopeAfter (scope : Scope) (stmts : List Stmt) : Scope :=
  stmts.foldl (fun scope s => (s.check scope).2) scope

/-- The scope with which the checker comes to a position: in each list around it, the statements
before it have been checked from the scope at the start of that list. -/
def scope : Position → Scope
  | program before => scopeAfter .empty before
  | body outer before => scopeAfter outer.scope.enterBody before
  | block outer before => scopeAfter outer.scope.enterBlock before

/-! ### One statement further -/

theorem scopeAfter_append (scope : Scope) (stmts : List Stmt) (s : Stmt) :
    scopeAfter scope (stmts ++ [s]) = (s.check (scopeAfter scope stmts)).2 := by
  rw [scopeAfter, List.foldl_append]
  rfl

theorem scope_behind (pos : Position) (s : Stmt) :
    (pos.behind s).scope = (s.check pos.scope).2 := by
  cases pos <;> exact scopeAfter_append _ _ s

theorem lastDeclaration?_append (name : String) (stmts : List Stmt) (s : Stmt) :
    lastDeclaration? name (stmts ++ [s]) =
      (s.declaration?.filter fun decl => decl.name == name).or (lastDeclaration? name stmts) := by
  rw [lastDeclaration?, List.filterMap_append, List.filter_append, List.getLast?_append]
  congr 1
  cases h : s.declaration? with
  | none => simp [h]
  | some decl => by_cases hname : decl.name = name <;> simp [h, hname, Option.filter]

theorem resolve_behind (pos : Position) (s : Stmt) (name : String) :
    (pos.behind s).resolve name =
      (s.declaration?.filter fun decl => decl.name == name).or (pos.resolve name) := by
  cases pos with
  | program before => exact lastDeclaration?_append name before s
  | body outer before => rw [behind, resolve, lastDeclaration?_append, resolve, Option.or_assoc]
  | block outer before => rw [behind, resolve, lastDeclaration?_append, resolve, Option.or_assoc]

/-! ### The table and the declarations agree -/

/-- Every name has the type in the scope that its declaration gives it. -/
def Tracks (pos : Position) : Prop :=
  ∀ name, (pos.scope.get? name).map Binding.ty =
    (pos.resolve name).map fun decl => Ty.ofName decl.typeName

theorem tracks_program : (program []).Tracks := fun _ => rfl

theorem Tracks.body {pos : Position} (h : pos.Tracks) : (body pos []).Tracks := h

theorem Tracks.block {pos : Position} (h : pos.Tracks) : (block pos []).Tracks := h

theorem Tracks.behind {pos : Position} {s : Stmt} (h : pos.Tracks)
    (hs : (s.check pos.scope).1.outcome = .ok ()) : (pos.behind s).Tracks := by
  intro name
  rw [scope_behind, Stmt.check_scope hs, resolve_behind]
  cases s.declaration? with
  | none => exact h name
  | some decl =>
    -- the new declaration hides an earlier one of the same name in both
    by_cases hname : decl.name = name
    · subst hname
      have found : (decl.extend pos.scope).get? decl.name =
          some (decl.binding pos.scope.depth) := Scope.get?_insert_self _ _
      simp [found, Declaration.binding, Option.filter]
    · have kept : (decl.extend pos.scope).get? name = pos.scope.get? name :=
        Scope.get?_insert_of_ne _ (Ne.symm hname)
      simp [kept, hname, h name, Option.filter]

/-! ### Whole lists -/

def behindAll (stmts : List Stmt) (pos : Position) : Position :=
  stmts.foldl (fun pos s => pos.behind s) pos

theorem behindAll_body (outer : Position) (before stmts : List Stmt) :
    (body outer before).behindAll stmts = body outer (before ++ stmts) := by
  induction stmts generalizing before with
  | nil => rw [List.append_nil]; rfl
  | cons s rest ih =>
    have step : (body outer before).behindAll (s :: rest) =
        (body outer (before ++ [s])).behindAll rest := rfl
    rw [step, ih, List.append_assoc, List.singleton_append]

theorem Tracks.behindAll {pos : Position} {stmts : List Stmt} (h : pos.Tracks)
    (hall : (Stmt.checkAll pos.scope stmts).1.outcome = .ok ()) : (pos.behindAll stmts).Tracks := by
  induction stmts generalizing pos with
  | nil => exact h
  | cons s rest ih =>
    obtain ⟨hs, hrest⟩ := Stmt.checkAll_cons_eq_ok_iff.1 hall
    exact ih (h.behind hs) (by rwa [scope_behind])

/-- Behind the whole body of a loop that checks, the scope is the one that the body leaves. -/
theorem scope_body {pos : Position} {stmts : List Stmt}
    (hall : (Stmt.checkAll pos.scope.enterBody stmts).1.outcome = .ok ()) :
    (body pos stmts).scope = (Stmt.checkAll pos.scope.enterBody stmts).2 :=
  (Stmt.checkAll_scope hall).symm

theorem Tracks.body_end {pos : Position} {stmts : List Stmt} (h : pos.Tracks)
    (hall : (Stmt.checkAll pos.scope.enterBody stmts).1.outcome = .ok ()) :
    (Position.body pos stmts).Tracks := by
  have tracks : ((Position.body pos []).behindAll stmts).Tracks := h.body.behindAll hall
  rwa [behindAll_body, List.nil_append] at tracks

end Position

end StaticCheck
