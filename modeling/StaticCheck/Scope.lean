import StaticCheck.Failure
import StaticCheck.Ty

/-! # Scopes

A scope is the table of all names visible at one place, each bound to the innermost declaration of
it.  A block works on a copy of the table around it, one level deeper, and the copy is dropped at
its end.  A bare block may declare a visible name anew and so shadow it; the body of a branch or a
loop may not. -/

namespace StaticCheck

/-- A visible declaration. -/
structure Binding where
  name : String
  ty : Ty
  span : Span
  /-- The depth of the block that declares the name. -/
  depth : Nat
deriving DecidableEq

/-- The names visible at one place. -/
structure Scope where
  /-- The visible declarations, at most one for each name. -/
  bindings : List Binding
  /-- The number of blocks around the place. -/
  depth : Nat
  /-- Whether a name from further out may be declared anew. -/
  shadowing : Bool
deriving DecidableEq

namespace Scope

/-- The scope of a whole program, before its first statement. -/
def empty : Scope := ⟨[], 0, false⟩

/-- The declaration that a name refers to. -/
def get? (scope : Scope) (name : String) : Option Binding :=
  scope.bindings.find? fun b => b.name == name

def contains (scope : Scope) (name : String) : Bool := (scope.get? name).isSome

def size (scope : Scope) : Nat := scope.bindings.length

/-- Binds a name, in place of what it was bound to before. -/
def insert (scope : Scope) (binding : Binding) : Scope :=
  { scope with bindings := binding :: scope.bindings.filter fun b => b.name != binding.name }

/-- Whether a declaration of the name is refused: it is visible and either declared at this very
depth or protected from being shadowed. -/
def blocks (scope : Scope) (name : String) : Bool :=
  match scope.get? name with
  | none => false
  | some b => !scope.shadowing || b.depth == scope.depth

/-- Declares a name at this depth. -/
def declare (scope : Scope) (name : String) (ty : Ty) (span : Span) : Except SemanticError Scope :=
  if scope.blocks name then .error (.redeclared name span)
  else .ok (scope.insert ⟨name, ty, span, scope.depth⟩)

/-- The type of the declaration that a name refers to. -/
def lookup (scope : Scope) (name : String) (span : Span) : Except SemanticError Ty :=
  match scope.get? name with
  | none => .error (.undeclared name span)
  | some b => .ok b.ty

/-- The scope at the start of the body of a branch or a loop. -/
def enterBody (scope : Scope) : Scope := ⟨scope.bindings, scope.depth + 1, false⟩

/-- The scope at the start of a bare block. -/
def enterBlock (scope : Scope) : Scope := ⟨scope.bindings, scope.depth + 1, true⟩

/-! ### Look-up after a declaration -/

@[simp] theorem get?_insert_self (scope : Scope) (b : Binding) :
    (scope.insert b).get? b.name = some b := by
  simp [get?, insert]

theorem get?_insert_of_ne (scope : Scope) {b : Binding} {name : String} (h : name ≠ b.name) :
    (scope.insert b).get? name = scope.get? name := by
  have front : (b.name == name) = false := by simp [Ne.symm h]
  simp only [get?, insert, List.find?_cons, front, List.find?_filter]
  congr 1
  funext x
  by_cases hx : x.name = name
  · simp [hx, h]
  · simp [hx]

end Scope

end StaticCheck
