/-! # Metrics

The four counters of a check: declarations, loops, conditionals and operators. -/

namespace StaticCheck

/-- How often each construct was met. -/
structure Metrics where
  declarations : Nat
  loops : Nat
  conditionals : Nat
  operators : Nat
deriving DecidableEq

namespace Metrics

def zero : Metrics := ⟨0, 0, 0, 0⟩

/-- What two parts met together. -/
def add (a b : Metrics) : Metrics :=
  ⟨a.declarations + b.declarations, a.loops + b.loops, a.conditionals + b.conditionals,
    a.operators + b.operators⟩

instance : Zero Metrics := ⟨zero⟩

instance : Add Metrics := ⟨add⟩

def declaration : Metrics := ⟨1, 0, 0, 0⟩

def loop : Metrics := ⟨0, 1, 0, 0⟩

/-- One conditional, a branch or a choice between two expressions. -/
def conditional : Metrics := ⟨0, 0, 1, 0⟩

def ofOperators (count : Nat) : Metrics := ⟨0, 0, 0, count⟩

def report (m : Metrics) : String :=
  "\x7bVAR:" ++ toString m.declarations ++ ", WHILE:" ++ toString m.loops ++
    ", IF:" ++ toString m.conditionals ++ ", OP:" ++ toString m.operators ++ "\x7d"

/-- The sums reached after each of several increments. -/
def running (start : Metrics) : List Metrics → List Metrics
  | [] => []
  | m :: rest => (start + m) :: running (start + m) rest

/-! ### Addition -/

theorem add_def (a b : Metrics) : a + b =
    ⟨a.declarations + b.declarations, a.loops + b.loops, a.conditionals + b.conditionals,
      a.operators + b.operators⟩ := rfl

theorem zero_def : (0 : Metrics) = ⟨0, 0, 0, 0⟩ := rfl

@[simp] protected theorem zero_add (a : Metrics) : 0 + a = a := by
  simp [add_def, zero_def]

@[simp] protected theorem add_zero (a : Metrics) : a + 0 = a := by
  simp [add_def, zero_def]

protected theorem add_assoc (a b c : Metrics) : a + b + c = a + (b + c) := by
  simp [add_def, Nat.add_assoc]

protected theorem add_comm (a b : Metrics) : a + b = b + a := by
  simp [add_def, Nat.add_comm]

end Metrics

end StaticCheck
